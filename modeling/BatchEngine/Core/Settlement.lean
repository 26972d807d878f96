import BatchEngine.Core.Shutdown

/-!
# What a live job's task charges the ledger

`_run_and_settle` charges the estimate in its `finally`, in the step that ends the task. The
ledger stands beside the task here, and the law says which runs charge it their cost.
-/

set_option autoImplicit false

namespace BatchEngine.Core

open Py (PyFloat)
open BatchEngine.Providers

/-- `_run_and_settle` from the moment `runner.run()` has returned or raised. A task that was
never entered does not come to its `finally`. -/
def JobTask.settle {n : ℕ} (t : JobTask n) (isLive : Bool) (ledger : LedgerFile) : LedgerFile :=
  if t.dropped then ledger else Core.settle t.job.ctx.record isLive ledger

def RunPhase.isFinished : RunPhase → Bool
  | .finished _ => true
  | _ => false

/-- The ledger beside the task: it is charged in the step that ends the task. -/
def chargeOnEnd {R : Type*} {n : ℕ} (isLive : Bool) (t : JobTask n) (_ : TaskAction R n)
    (t' : JobTask n) (ledger : LedgerFile) : LedgerFile :=
  if t'.job.phase.isFinished ∧ ¬ t.job.phase.isFinished then t'.settle isLive ledger else ledger

def ledgerStep {R : Type*} (J : JobRunner R) (isLive : Bool) :
    JobTask J.concurrency × LedgerFile → TaskAction R J.concurrency →
      Option (JobTask J.concurrency × LedgerFile) :=
  Runs.withHistory (taskStep J) (chargeOnEnd isLive)

section Ledger

variable {R : Type*} {J : JobRunner R}

/-- The cost will not be written. -/
def Uncosted {n : ℕ} (t : JobTask n) : Prop :=
  t.Cancelled ∧ ¬ t.job.ctx.record.status.IsTerminal ∨
    ¬ t.Cancelled ∧ (t.job.phase.exc = some .ingest ∨ t.job.phase.exc = some .cost)

theorem uncosted_undisturbed {t : JobTask J.concurrency} (hreach : Reachable J t.job)
    (hattended : t.unwinding = false) :
    Uncosted t ↔ (t.job.phase.exc = some .ingest ∨ t.job.phase.exc = some .cost) := by
  have hnot := undisturbed_not_cancelled hreach hattended
  unfold Uncosted
  simp [hnot]

theorem uncosted_cancelled {n : ℕ} {t : JobTask n} (h : t.Cancelled) :
    Uncosted t ↔ ¬ t.job.ctx.record.status.IsTerminal := by
  unfold Uncosted
  simp [h]

/-- When the task is over, the estimate is the cost or still zero. -/
theorem task_estimate {t : JobTask J.concurrency} (h : TaskFacts J t)
    {exc : Option RunException} (hfin : t.job.phase = .finished exc) :
    (Uncosted t → t.job.ctx.record.usage.estimatedCostUsd = 0) ∧
      (¬ Uncosted t → t.job.ctx.record.usage.estimatedCostUsd =
        costUsd J.toWorkerConfig t.job.ctx.record.usage) := by
  cases h with
  | undisturbed hreach hattended _ =>
    have hestimate := reachable_estimated hreach
    have hexc := reachable_uncancelled hreach
    unfold Estimated at hestimate
    rw [uncosted_undisturbed hreach hattended]
    rw [hfin] at hestimate hexc ⊢
    match exc with
    | none | some .conservation | some .webhook =>
      refine ⟨?_, fun _ => hestimate⟩
      rintro (h | h) <;> cases h
    | some .ingest => exact ⟨fun _ => hestimate, fun h => absurd (Or.inl rfl) h⟩
    | some .cost => exact ⟨fun _ => hestimate, fun h => absurd (Or.inr rfl) h⟩
    | some .cancelled => exact absurd rfl hexc
  | cut hcut =>
    refine ⟨fun _ => hcut.estimate, fun hcosted => absurd ?_ hcosted⟩
    exact (uncosted_cancelled hcut.cancelled).mpr hcut.status
  | late hlate =>
    refine ⟨fun huncosted => ?_, fun _ => hlate.estimate⟩
    exact absurd hlate.final.1 ((uncosted_cancelled hlate.cancelled).mp huncosted)

theorem isFinished_iff {p : RunPhase} : p.isFinished = true ↔ ∃ exc, p = .finished exc := by
  cases p <;> simp [RunPhase.isFinished]

theorem step_finished {s s' : State J.concurrency} {a : Action R J.concurrency}
    (h : JobTurn J s a s') {exc : Option RunException} (hphase : s.phase = .finished exc) :
    s'.phase = .finished exc := by
  cases h with
  | tick _ | cancel | wrote _ | timedOut _ | worker _ _ => exact hphase
  | begun hp | ended hp _ | dropped hp _ _ | ingested hp _ | put hp _ _ | saved hp _ | closed hp
  | sentinel hp _ | gathering hp | gathered hp _ | reraised hp | costRaised hp _ | finalized hp _
  | savedFinal hp | delivered hp =>
    rw [hp] at hphase
    cases hphase

/-- A task that is over stays over. -/
theorem finished_stays {t t' : JobTask J.concurrency} {a : TaskAction R J.concurrency}
    (h : JobTaskTurn J t a t') (hfin : t.job.phase.isFinished = true) :
    t'.job.phase.isFinished = true := by
  obtain ⟨exc, hphase⟩ := isFinished_iff.mp hfin
  cases h with
  | job _ hstep => exact isFinished_iff.mpr ⟨exc, step_finished (step_turn hstep) hphase⟩
  | passedOn _ => exact hfin
  | interrupted hopen _ => exact absurd hphase (hopen exc)
  | dropped _ => rfl
  | unwinds _ => exact hfin
  | unwound _ => rfl

/-- The estimate of a task that is over does not change. -/
theorem finished_estimate {t t' : JobTask J.concurrency} {a : TaskAction R J.concurrency}
    (h : TaskMove J t a t') (hfin : t.job.phase.isFinished = true) :
    t'.job.ctx.record.usage.estimatedCostUsd = t.job.ctx.record.usage.estimatedCostUsd := by
  obtain ⟨exc, hphase⟩ := isFinished_iff.mp hfin
  cases h with
  | @works b s' hreach _ _ hstep =>
    obtain ⟨ts, m, horder⟩ := reachable_orderly hreach
    have hreturned := horder.drained (by rw [hphase]; trivial)
    obtain ⟨-, -, -, hrecord, -⟩ := step_late (step_turn hstep) hphase hreturned
    exact congrArg (fun record => record.usage.estimatedCostUsd) hrecord
  | cuts _ _ _ _ hopen _ => exact absurd hphase (hopen exc)
  | comesLate _ _ _ _ => rw [interrupt_usage]
  | stays hcut hcut' => exact hcut'.estimate.trans hcut.estimate.symm
  | rests _ _ _ _ hrecord _ =>
    exact congrArg (fun record => record.usage.estimatedCostUsd) hrecord

/-- What the ledger `ledger'` beside a task has become of `ledger`. -/
def Accounted {n : ℕ} (ledger : LedgerFile) (p : JobTask n × LedgerFile) : Prop :=
  if p.1.job.phase.isFinished then
    ∀ before, loadTotalSpend ledger = .ok before →
      loadTotalSpend p.2 = .ok (plus before (max 0 p.1.job.ctx.record.usage.estimatedCostUsd))
  else p.2 = ledger

theorem plus_zero (x : PyFloat) : plus x 0 = x := by
  cases x with
  | fin q => exact congrArg PyFloat.fin (add_zero q)
  | _ => rfl

theorem settle_accounted {t : JobTask J.concurrency} (hs : TaskFacts J t) {ledger : LedgerFile}
    {before : PyFloat} (hload : loadTotalSpend ledger = .ok before) :
    loadTotalSpend (t.settle true ledger) =
      .ok (plus before (max 0 t.job.ctx.record.usage.estimatedCostUsd)) := by
  unfold JobTask.settle
  split
  · rename_i hdropped
    cases hs with
    | undisturbed _ _ hentered =>
      rw [hentered] at hdropped
      cases hdropped
    | cut hcut =>
      rw [hcut.estimate, max_self, plus_zero]
      exact hload
    | late hlate =>
      rw [hlate.entered] at hdropped
      cases hdropped
  · exact loadTotalSpend_settle hload t.job.ctx.record

theorem ledgerStep_accounted {ledger : LedgerFile} {p q : JobTask J.concurrency × LedgerFile}
    {a : TaskAction R J.concurrency} (hs : TaskFacts J p.1 ∧ Accounted ledger p)
    (h : ledgerStep J true p a = some q) : TaskFacts J q.1 ∧ Accounted ledger q := by
  obtain ⟨hfacts, haccounted⟩ := hs
  obtain ⟨hstep, hledger⟩ := Runs.withHistory_some.mp h
  have hfacts' := taskFacts_step hfacts hstep
  refine ⟨hfacts', ?_⟩
  unfold Accounted at haccounted ⊢
  cases hfin : p.1.job.phase.isFinished with
  | true =>
    have hfin' := finished_stays (taskStep_turn hstep) hfin
    have hsame := finished_estimate (taskTurn_move (taskStep_turn hstep) hfacts) hfin
    rw [hfin, if_pos rfl] at haccounted
    have hledger' : q.2 = p.2 := hledger.trans (by simp [chargeOnEnd, hfin])
    rw [hfin', if_pos rfl, hledger', hsame]
    exact haccounted
  | false =>
    rw [hfin, if_neg Bool.false_ne_true] at haccounted
    cases hfin' : q.1.job.phase.isFinished with
    | true =>
      have hledger' : q.2 = q.1.settle true p.2 :=
        hledger.trans (by simp [chargeOnEnd, hfin, hfin'])
      rw [if_pos rfl, hledger', haccounted]
      exact fun before hload => settle_accounted hfacts' hload
    | false =>
      have hledger' : q.2 = p.2 := hledger.trans (by simp [chargeOnEnd, hfin'])
      rw [if_neg Bool.false_ne_true, hledger']
      exact haccounted

/-- The ledger of a task that is over has been charged the estimate. -/
theorem run_accounted {now wall : ℚ} {actions : List (TaskAction R J.concurrency)}
    {t : JobTask J.concurrency} {ledger ledger' : LedgerFile}
    (hrun : Runs.exec (ledgerStep J true) (J.startTask now wall, ledger) actions =
      some (t, ledger'))
    (hfin : t.job.phase.isFinished = true) :
    TaskFacts J t ∧ ∀ before, loadTotalSpend ledger = .ok before →
      loadTotalSpend ledger' =
        .ok (plus before (max 0 t.job.ctx.record.usage.estimatedCostUsd)) := by
  have hstart : TaskFacts J (J.startTask now wall) ∧
      Accounted ledger (J.startTask now wall, ledger) := ⟨taskFacts_start J now wall, rfl⟩
  obtain ⟨hfacts, haccounted⟩ := Runs.exec_invariant'
    (I := fun p : JobTask J.concurrency × LedgerFile => TaskFacts J p.1 ∧ Accounted ledger p)
    (fun _ _ _ hs ht => ledgerStep_accounted hs ht) hstart hrun
  unfold Accounted at haccounted
  rw [hfin, if_pos rfl] at haccounted
  exact ⟨hfacts, haccounted⟩

/-- A terminal row of a task that is over is its final record, with the cost in it. -/
theorem final_stored {t : JobTask J.concurrency} (h : TaskFacts J t) {exc : Option RunException}
    (hfin : t.job.phase = .finished exc) {r : JobRecord} (hstore : t.job.store = some r)
    (hterminal : r.status.IsTerminal) : r = t.job.ctx.record ∧ ¬ Uncosted t := by
  cases h with
  | undisturbed hreach hattended _ =>
    refine ⟨visible_terminal hreach (Or.inr hstore) hterminal, fun huncosted => ?_⟩
    have hopen := reachable_storeOpen hreach
    rw [uncosted_undisturbed hreach hattended, hfin] at huncosted
    rw [hfin] at hopen
    have hunsaved : (RunPhase.finished exc).stage ≠ .saved := by
      rcases huncosted with hexc | hexc <;> rw [show exc = some _ from hexc] <;> exact nofun
    exact hopen hunsaved r hstore hterminal
  | cut hcut => exact absurd hterminal (hcut.store r hstore)
  | late hlate =>
    have hsaved := hlate.store.resolve_left fun hopen => hopen r hstore hterminal
    refine ⟨Option.some.inj (hstore.symm.trans hsaved), ?_⟩
    rw [uncosted_cancelled hlate.cancelled]
    exact not_not.mpr hlate.final.1

/-- However the task of a live job ends, also when it is cancelled, the ledger is charged the
whole cost or nothing. If the stored row is terminal it is the final record, and the whole
cost has been charged. -/
theorem settled_whole {now wall : ℚ} {actions : List (TaskAction R J.concurrency)}
    {t : JobTask J.concurrency} {ledger ledger' : LedgerFile} {before : PyFloat}
    (hrun : Runs.exec (ledgerStep J true) (J.startTask now wall, ledger) actions =
      some (t, ledger'))
    (hfin : t.job.phase.isFinished = true) (hload : loadTotalSpend ledger = .ok before) :
    (loadTotalSpend ledger' = .ok before ∨
      loadTotalSpend ledger' =
        .ok (plus before (max 0 (costUsd J.toWorkerConfig t.job.ctx.record.usage)))) ∧
    ∀ r, t.job.store = some r → r.status.IsTerminal →
      r = t.job.ctx.record ∧
        loadTotalSpend ledger' =
          .ok (plus before (max 0 (costUsd J.toWorkerConfig t.job.ctx.record.usage))) := by
  obtain ⟨hfacts, haccounted⟩ := run_accounted hrun hfin
  obtain ⟨exc, hphase⟩ := isFinished_iff.mp hfin
  obtain ⟨hnothing, hwhole⟩ := task_estimate hfacts hphase
  have hcharged := haccounted before hload
  constructor
  · by_cases huncosted : Uncosted t
    · rw [hnothing huncosted, max_self, plus_zero] at hcharged
      exact Or.inl hcharged
    · rw [hwhole huncosted] at hcharged
      exact Or.inr hcharged
  · intro r hstore hterminal
    obtain ⟨hrecord, hcosted⟩ := final_stored hfacts hphase hstore hterminal
    rw [hwhole hcosted] at hcharged
    exact ⟨hrecord, hcharged⟩

end Ledger

/-- The job of `twoRows` up to its last save. -/
def twoRowsTail : List (Action CallResult 2) :=
  twoRowsRun ++ [.writer, .writer, .writer, .runner false]

/-- The server shuts down while it is saved. -/
def twoRowsShutdown : List (TaskAction CallResult twoRows.concurrency) :=
  twoRowsTail.map .job ++ [.cancel true]

def twoRowsSettled : JobTask twoRows.concurrency × LedgerFile :=
  (Runs.exec (ledgerStep twoRows true) (twoRows.startTask 0 0, none) twoRowsShutdown).get
    (by decide +kernel)

/-- The save has gone through, and the three tokens are charged. -/
theorem settled_whole_twoRows :
    loadTotalSpend twoRowsSettled.2 = .ok (.fin (3 / 5000000)) := by
  have hfin : twoRowsSettled.1.job.phase.isFinished = true := by decide +kernel
  have hstore : twoRowsSettled.1.job.store = some twoRowsSettled.1.job.ctx.record := by
    decide +kernel
  have hterminal : twoRowsSettled.1.job.ctx.record.status.IsTerminal := by decide +kernel
  have hcost : plus (.fin 0)
      (max 0 (costUsd twoRows.toWorkerConfig twoRowsSettled.1.job.ctx.record.usage)) =
        .fin (3 / 5000000) := by
    decide +kernel
  have hload : loadTotalSpend none = .ok (.fin 0) := rfl
  obtain ⟨-, hcharged⟩ := settled_whole (Option.some_get _).symm hfin hload
  rw [← hcost]
  exact (hcharged _ hstore hterminal).2

end BatchEngine.Core
