import BatchEngine.Core.JobTurns
import BatchEngine.Core.Usage

/-!
# The per-job spend guard

`on_spend_check` looks at the cost when `done` is a multiple of 50. But it is called
on the success path only, while failures move `done` as well. So a multiple of 50 that
is reached by a failure goes by unchecked.
-/

set_option autoImplicit false

namespace BatchEngine.Core

open BatchEngine.Providers

variable {R : Type*} {J : JobRunner R}

/-- The record as it stood after one of the rows of a step. -/
def Passes {n : ℕ} (s s' : State n) (record : JobRecord) : Prop :=
  ∃ rows row rest,
    s'.ctx.sink.submitted = s.ctx.sink.submitted ++ (rows ++ row :: rest) ∧
      record = (rows ++ [row]).foldl JobRecord.settle s.ctx.record

/-- In this step the resolved items reach a positive multiple of 50, and there the cost or
its projection is at the cap. -/
def ReachesCap (J : JobRunner R) (s s' : State J.concurrency) : Prop :=
  ∃ record, Passes s s' record ∧ SpendCheckDue record.counts ∧ OverCap J.toWorkerConfig record

/-- Once the cap is reached at a multiple of 50, no call starts until the job is aborted. -/
def GuardInTime (J : JobRunner R) (start : State J.concurrency)
    (actions : List (Action R J.concurrency)) : Prop :=
  ∀ before a between b after s s' t u, actions = before ++ a :: (between ++ b :: after) →
    Runs.exec (step J) start before = some s → step J s a = some s' → ReachesCap J s s' →
    Runs.exec (step J) s' between = some t → step J t b = some u → u.ctx.calls ≠ t.ctx.calls →
    t.ctx.abortEvent = true

/-- The step that reaches the cap also aborts, unless an earlier one did. -/
def GuardActs (J : JobRunner R) (s : State J.concurrency) (a : Action R J.concurrency) : Prop :=
  ∀ s', step J s a = some s' → ReachesCap J s s' → s'.ctx.abortEvent = true

/-- A reply that is a success whose spend check returns, or a fatal answer. -/
def EndsChecked (J : JobRunner R) : Action R J.concurrency → Prop
  | .worker _ (.reply r _ false) =>
    (classify (outcomeOf (J.provider.complete r))).1 = .success ∨
      (classify (outcomeOf (J.provider.complete r))).1.isFatal = true
  | _ => False

/-- The step that reaches the cap is such a reply, or the job is aborted already. -/
def GuardSees (J : JobRunner R) (s : State J.concurrency) (a : Action R J.concurrency) : Prop :=
  ∀ s', step J s a = some s' → ReachesCap J s s' →
    s.ctx.abortEvent = true ∨ EndsChecked J a

/-! ## What aborts a job -/

theorem loopTurn_aborts {ctx : WorkerContext} {h : InHand} {ws' : WorkerState} {e : Effect}
    (hturn : LoopTurn ctx h ws' e) : e.aborts = false := by
  cases hturn <;> rfl

theorem retryTurn_aborts {h : InHand} {ws' : WorkerState} {e : Effect}
    (hturn : RetryTurn h ws' e) : e.aborts = false := by
  cases hturn <;> rfl

/-- Of the turns that reach the cap, exactly the checked replies abort the job. -/
theorem turn_aborts_iff {ctx ctx' : WorkerContext} {ws ws' : WorkerState} {i : Fin J.concurrency}
    {input : WorkerInput R} {e : Effect} (hturn : Turn J.toWorkerConfig ctx ctx' ws input ws' e)
    (hdoes : Does ctx ctx' e)
    (hcap : ∀ row, e.rows = [row] → SpendCheckDue (ctx.record.settle row).counts ∧
      OverCap J.toWorkerConfig (ctx.record.settle row)) :
    e.aborts = true ↔ EndsChecked J (.worker i input) := by
  cases hturn with
  | shutdown => exact iff_of_false Bool.false_ne_true id
  | passed => exact iff_of_false Bool.false_ne_true id
  | taken hloop =>
    have haborts := loopTurn_aborts hloop
    exact iff_of_false (Bool.eq_false_iff.mp haborts) id
  | asked hloop => exact iff_of_false (Bool.eq_false_iff.mp (loopTurn_aborts hloop)) id
  | looped hloop => exact iff_of_false (Bool.eq_false_iff.mp (loopTurn_aborts hloop)) id
  | waited => exact iff_of_false Bool.false_ne_true id
  | granted => exact iff_of_false Bool.false_ne_true id
  | jittered => exact iff_of_false Bool.false_ne_true id
  | resumed hretry => exact iff_of_false (Bool.eq_false_iff.mp (retryTurn_aborts hretry)) id
  | replied hcall =>
    have hthrottled : ¬ (FailureClass.throttled = .success ∨
      FailureClass.throttled.isFatal = true) := by decide
    cases hcall with
    | succeeded hresp hclass =>
      have hdue := hcap _ rfl
      refine iff_of_true (decide_eq_true ?_) (Or.inl hclass)
      rw [hdoes.record]
      exact hdue
    | raised _ _ _ => exact iff_of_false Bool.false_ne_true id
    | fatal hclass _ => exact iff_of_true rfl (Or.inr hclass)
    | paused hclass =>
      refine iff_of_false Bool.false_ne_true ?_
      rw [← hclass] at hthrottled
      exact hthrottled
    | jittered hclass =>
      refine iff_of_false Bool.false_ne_true ?_
      rw [← hclass] at hthrottled
      exact hthrottled
    | failed hsuccess hfatal hretry =>
      have haborts := retryTurn_aborts hretry
      refine iff_of_false (Bool.eq_false_iff.mp haborts) ?_
      rintro (hclass | hclass)
      · exact hsuccess hclass
      · rw [hfatal] at hclass
        cases hclass

theorem not_passes {n : ℕ} {s s' : State n} {record : JobRecord}
    (hsubmitted : s'.ctx.sink.submitted = s.ctx.sink.submitted) : ¬ Passes s s' record := by
  rintro ⟨rows, row, rest, hrows, -⟩
  rw [hsubmitted, List.self_eq_append_right] at hrows
  exact List.append_ne_nil_of_right_ne_nil _ (List.cons_ne_nil _ _) hrows

/-- A step that reaches the cap leaves the job aborted exactly if it was aborted before or
the step is a checked reply. -/
theorem step_aborts_iff {s s' : State J.concurrency} {a : Action R J.concurrency}
    (h : JobTurn J s a s') (hcap : ReachesCap J s s') :
    s'.ctx.abortEvent = true ↔ s.ctx.abortEvent = true ∨ EndsChecked J a := by
  obtain ⟨record, hpasses, hdue, hover⟩ := hcap
  cases h with
  | @worker i input ctx' ws' e hturn hdoes =>
    have hone : ∀ row, e.rows = [row] → SpendCheckDue (s.ctx.record.settle row).counts ∧
        OverCap J.toWorkerConfig (s.ctx.record.settle row) := by
      intro row hrow
      obtain ⟨rows, row', rest, hrows, rfl⟩ := hpasses
      change ctx'.sink.submitted = _ at hrows
      rw [hdoes.submitted, hrow] at hrows
      have hsame := List.append_cancel_left hrows
      rcases rows with _ | ⟨first, rows⟩
      · obtain ⟨rfl, -⟩ := List.cons.inj hsame
        exact ⟨hdue, hover⟩
      · have hlength := congrArg List.length hsame
        simp at hlength
    rw [← turn_aborts_iff hturn hdoes hone]
    show ctx'.abortEvent = true ↔ _
    rw [hdoes.abortEvent, Bool.or_eq_true]
  | wrote hsink => exact absurd hpasses (not_passes (ResultSink.submitted_writerStep hsink))
  | timedOut hsink => exact absurd hpasses (not_passes (ResultSink.submitted_writerTimeout hsink))
  | gathered _ _ => exact absurd hpasses (not_passes (ResultSink.submitted_close _))
  | _ => exact absurd hpasses (not_passes rfl)

theorem step_keeps_abort {s s' : State J.concurrency} {a : Action R J.concurrency}
    (h : JobTurn J s a s') (habort : s.ctx.abortEvent = true) : s'.ctx.abortEvent = true := by
  cases h with
  | worker _ hdoes =>
    rw [hdoes.abortEvent, habort, Bool.true_or]
  | _ => exact habort

theorem run_keeps_abort {actions : List (Action R J.concurrency)} {s s' : State J.concurrency}
    (hrun : Runs.exec (step J) s actions = some s') :
    s.ctx.abortEvent = true → s'.ctx.abortEvent = true := by
  refine Runs.exec_rel
    (R := fun s s' : State J.concurrency => s.ctx.abortEvent = true → s'.ctx.abortEvent = true)
    (fun s hs => hs) (fun s t u hst htu hs => htu (hst hs)) (fun s a t ht => ?_) hrun
  exact step_keeps_abort (step_turn ht)

/-! ## The law -/

/-- The guard acts at every multiple of 50 exactly if every one that finds the cost at the
cap is reached by a checked reply, and then no call gets in before the abort. -/
theorem guard_in_time (start : State J.concurrency) (actions : List (Action R J.concurrency)) :
    (Runs.Along (step J) (GuardActs J) start actions ↔
      Runs.Along (step J) (GuardSees J) start actions) ∧
    (Runs.Along (step J) (GuardSees J) start actions → GuardInTime J start actions) := by
  have hacts : ∀ s a, GuardActs J s a ↔ GuardSees J s a := fun s a =>
    forall_congr' fun s' => forall_congr' fun hstep => forall_congr' fun hcap =>
      step_aborts_iff (step_turn hstep) hcap
  refine ⟨Runs.along_congr hacts, fun hsees => ?_⟩
  intro before a between b after s s' t u hactions hbefore hstep hcap hbetween _ _
  rw [hactions] at hsees
  have habort := (hacts s a).mpr (hsees.apply hbefore) s' hstep hcap
  exact run_keeps_abort hbetween habort

/-- An answer worth two dollars, 49 malformed rows and one more prompt. -/
def costly : JobRunner CallResult where
  provider := scripted (1 / 5) (1 / 5)
  config := { concurrency := some 1 }
  input :=
    { entries := .item ⟨"a", "hello"⟩ ::
        (List.replicate 49 (.error ⟨"bad", .invalidInput, .ingest "malformed JSON line", 1, none⟩) ++
          [.item ⟨"b", "hello"⟩]) }

def costlyAnswer : List (Action CallResult 1) :=
  List.replicate 3 (.runner false) ++
  [takeOne,
    .nth 0 (.reply (.returned { statusCode := 200, text := "hi", inputTokens := 10000000 }) 0 false)]

def costlyBefore : List (Action CallResult 1) :=
  costlyAnswer ++ readAndTake 2 48 ++ List.replicate 3 (.runner false)

def costlyAt49 : State 1 :=
  (Runs.exec (step costly) (costly.start 0 0) costlyBefore).get (by decide +kernel)

def costlyAt50 : State 1 :=
  (step costly costlyAt49 takeOne).get (by decide +kernel)

def costlyQueued : State 1 :=
  (Runs.exec (step costly) costlyAt50 (List.replicate 2 (.runner false))).get (by decide +kernel)

/-- The 50th item of `costly` is malformed, and the next prompt is still sent. -/
theorem guard_late : ∃ (J : JobRunner CallResult) (actions : List (Action CallResult J.concurrency))
    (s : State J.concurrency), Runs.exec (step J) (J.start 0 0) actions = some s ∧
      ¬ GuardInTime J (J.start 0 0) actions := by
  let u : State 1 := (step costly costlyQueued takeOne).get (by decide +kernel)
  have hbefore : Runs.exec (step costly) (costly.start 0 0) costlyBefore = some costlyAt49 :=
    (Option.some_get _).symm
  have hstep : step costly costlyAt49 takeOne = some costlyAt50 :=
    (Option.some_get _).symm
  have hbetween : Runs.exec (step costly) costlyAt50 (List.replicate 2 (.runner false)) =
      some costlyQueued := (Option.some_get _).symm
  have hcall : step costly costlyQueued takeOne = some u := (Option.some_get _).symm
  have hcap : ReachesCap costly costlyAt49 costlyAt50 :=
    ⟨_, ⟨[], .error ⟨"bad", .invalidInput, .ingest "malformed JSON line", 1, none⟩, [],
      by decide +kernel, rfl⟩, by decide +kernel, by decide +kernel⟩
  refine ⟨costly, costlyBefore ++ takeOne :: (List.replicate 2 (.runner false) ++
    takeOne :: []), u, ?_, fun h => ?_⟩
  · refine Runs.exec_append.mpr ⟨costlyAt49, hbefore, Runs.exec_cons_iff.mpr
      ⟨costlyAt50, hstep, ?_⟩⟩
    exact Runs.exec_snoc.mpr ⟨costlyQueued, hbetween, hcall⟩
  · have habort := h costlyBefore takeOne (List.replicate 2 (.runner false))
      takeOne [] costlyAt49 costlyAt50 costlyQueued u rfl hbefore hstep hcap hbetween
      hcall (by decide +kernel)
    exact absurd habort (by decide +kernel)

end BatchEngine.Core
