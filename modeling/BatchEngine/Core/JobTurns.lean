import BatchEngine.Core.Scheduler
import BatchEngine.Core.Turns

/-!
# What one step of a job can do

The inversion of `step`: each action with the state it leads to. A worker's turn is
described by what it can do (`Turn`, `Does`), the others by the state they write.
-/

set_option autoImplicit false

namespace BatchEngine.Core

variable {R : Type*}

inductive JobTurn (J : JobRunner R) (s : State J.concurrency) :
    Action R J.concurrency → State J.concurrency → Prop
  | tick {dt wall : ℚ} (hdt : 0 ≤ dt) :
      JobTurn J s (.tick dt wall) { s with ctx.now := s.ctx.now + dt, ctx.wall := wall }
  | cancel : JobTurn J s .cancel { s with ctx.cancelEvent := true }
  | wrote {sink : ResultSink} (hsink : s.ctx.sink.writerStep s.ctx.now = some sink) :
      JobTurn J s .writer { s with ctx.sink := sink }
  | timedOut {sink : ResultSink} (hsink : s.ctx.sink.writerTimeout s.ctx.now = some sink) :
      JobTurn J s .writerTimeout { s with ctx.sink := sink }
  | worker {i : Fin J.concurrency} {input : WorkerInput R} {ctx' : WorkerContext}
      {ws' : WorkerState} {e : Effect}
      (hturn : Turn J.toWorkerConfig s.ctx ctx' (s.workers i) input ws' e)
      (hdoes : Does s.ctx ctx' e) :
      JobTurn J s (.worker i input)
        { s with ctx := ctx', workers := Function.update s.workers i ws' }
  | begun (hphase : s.phase = .starting) :
      JobTurn J s (.runner false)
        { s with
          ctx.record.status := .running
          store := some { s.ctx.record with status := .running }
          phase := .reading }
  | ended (hphase : s.phase = .reading) (hrest : s.rest = []) :
      JobTurn J s (.runner false)
        { s with phase := .closing (if J.input.raises then some .ingest else none) }
  | dropped {parsed : Entry} {rest : List Entry} (hphase : s.phase = .reading)
      (hrest : s.rest = parsed :: rest)
      (hstop : s.ctx.cancelEvent = true ∨ s.ctx.abortEvent = true) :
      JobTurn J s (.runner false) { s with rest, phase := .closing none }
  | ingested {parsed : Entry} {rest : List Entry} (hphase : s.phase = .reading)
      (hrest : s.rest = parsed :: rest) :
      JobTurn J s (.runner false)
        { s with
          rest
          ctx.record.counts.ingested := s.ctx.record.counts.ingested + 1
          ctx.record.counts.pending := s.ctx.record.counts.pending + 1
          ctx.retryBudget.totalItems := s.ctx.record.counts.ingested + 1
          phase := .putting ⟨s.ctx.record.counts.ingested, parsed⟩ }
  | put {t : Ticket} {q : BoundedQueue Queued} {next : RunPhase} (hphase : s.phase = .putting t)
      (hput : s.ctx.queue.put (.ticket t) = some q)
      (hnext : next = .saving ∨ next = .reading ∨ next = .closing none) :
      JobTurn J s (.runner false) { s with ctx.queue := q, phase := next }
  | saved {next : RunPhase} (hphase : s.phase = .saving)
      (hnext : next = .reading ∨ next = .closing none) :
      JobTurn J s (.runner false) { s with store := some s.ctx.record, phase := next }
  | closed {exc : Option RunException} (hphase : s.phase = .closing exc) :
      JobTurn J s (.runner false) { s with phase := .shuttingDown J.concurrency exc }
  | sentinel {left : ℕ} {exc : Option RunException} {q : BoundedQueue Queued}
      (hphase : s.phase = .shuttingDown (left + 1) exc)
      (hput : s.ctx.queue.put .shutdown = some q) :
      JobTurn J s (.runner false) { s with ctx.queue := q, phase := .shuttingDown left exc }
  | gathering {exc : Option RunException} (hphase : s.phase = .shuttingDown 0 exc) :
      JobTurn J s (.runner false) { s with phase := .gathering exc }
  | gathered {exc : Option RunException} (hphase : s.phase = .gathering exc)
      (hall : ∀ i, s.workers i = .returned) :
      JobTurn J s (.runner false)
        { s with ctx.sink := s.ctx.sink.close, phase := .closingSink exc }
  | reraised {exc : RunException} (hphase : s.phase = .closingSink (some exc)) :
      JobTurn J s (.runner false) { s with phase := .finished (some exc) }
  | costRaised (hphase : s.phase = .closingSink none)
      (hraise : CostMayRaise J.toWorkerConfig s.ctx.record.usage) :
      JobTurn J s (.runner true)
        { s with ctx.record.finishedAt := some s.ctx.wall, phase := .finished (some .cost) }
  | finalized (hphase : s.phase = .closingSink none)
      (hcost : ¬ CostOverflows s.ctx.record.usage) :
      JobTurn J s (.runner false)
        { s with
          ctx.record := finalRecord J s.ctx
          phase := if (finalRecord J s.ctx).counts.conserved then .savingFinal
            else .finished (some .conservation) }
  | savedFinal (hphase : s.phase = .savingFinal) :
      JobTurn J s (.runner false) { s with store := some s.ctx.record, phase := .delivering }
  | delivered {raises : Bool} (hphase : s.phase = .delivering) :
      JobTurn J s (.runner raises)
        { s with phase := .finished (if raises then some .webhook else none) }

section Inversion

variable {J : JobRunner R}

theorem afterPut_cases {n : ℕ} (s : State n) :
    afterPut J s = .reading ∨ afterPut J s = .closing none := by
  unfold afterPut
  split
  · exact Or.inl rfl
  · split
    · exact Or.inr rfl
    · exact Or.inl rfl

theorem readNext_turn {s : State J.concurrency} (hphase : s.phase = .reading) :
    JobTurn J s (.runner false) (readNext J s) := by
  unfold readNext
  split
  · rename_i hrest
    exact .ended hphase hrest
  · rename_i parsed rest hrest
    split
    · exact .dropped hphase hrest ‹_›
    · exact .ingested hphase hrest

theorem finalize_turn {s s' : State J.concurrency} {raises : Bool}
    (hphase : s.phase = .closingSink none) (h : finalize J s raises = some s') :
    JobTurn J s (.runner raises) s' := by
  unfold finalize at h
  cases raises with
  | true =>
    rw [if_pos rfl] at h
    split at h
    · obtain rfl := Option.some.inj h
      exact .costRaised hphase ‹_›
    · cases h
  | false =>
    rw [if_neg Bool.false_ne_true] at h
    split at h
    · cases h
    · obtain rfl := Option.some.inj h
      exact .finalized hphase ‹_›

theorem runnerStep_turn {s s' : State J.concurrency} {raises : Bool}
    (h : runnerStep J s raises = some s') : JobTurn J s (.runner raises) s' := by
  unfold runnerStep at h
  split at h
  · rename_i hphase
    obtain rfl := Option.some.inj h
    exact .begun hphase
  · rename_i hphase
    obtain rfl := Option.some.inj h
    exact readNext_turn hphase
  · rename_i t hphase
    obtain ⟨q, hput, rfl⟩ := Option.map_eq_some_iff.mp h
    refine .put hphase hput ?_
    split
    · exact Or.inl rfl
    · exact Or.inr (afterPut_cases s)
  · rename_i hphase
    obtain rfl := Option.some.inj h
    exact .saved hphase (afterPut_cases s)
  · rename_i exc hphase
    obtain rfl := Option.some.inj h
    exact .closed hphase
  · rename_i left exc hphase
    obtain ⟨q, hput, rfl⟩ := Option.map_eq_some_iff.mp h
    exact .sentinel hphase hput
  · rename_i exc hphase
    obtain rfl := Option.some.inj h
    exact .gathering hphase
  · rename_i exc hphase
    split at h
    · obtain rfl := Option.some.inj h
      exact .gathered hphase ‹_›
    · cases h
  · rename_i exc hphase
    split at h
    · obtain rfl := Option.some.inj h
      exact .reraised hphase
    · cases h
  · rename_i hphase
    split at h
    · exact finalize_turn hphase h
    · cases h
  · rename_i hphase
    obtain rfl := Option.some.inj h
    exact .savedFinal hphase
  · rename_i raises _ _ hphase
    cases raises with
    | true =>
      rw [if_pos rfl] at h
      split at h
      · obtain rfl := Option.some.inj h
        exact .delivered hphase
      · cases h
    | false =>
      obtain rfl := Option.some.inj h
      exact .delivered hphase
  · cases h

/-- Everything that one step of a job can do. -/
theorem step_turn {s s' : State J.concurrency} {a : Action R J.concurrency}
    (h : step J s a = some s') : JobTurn J s a s' := by
  cases a with
  | tick dt wall =>
    simp only [step] at h
    split at h
    · obtain rfl := Option.some.inj h
      exact .tick ‹_›
    · cases h
  | cancel =>
    obtain rfl := Option.some.inj h
    exact .cancel
  | runner raises => exact runnerStep_turn h
  | worker i input =>
    obtain ⟨⟨ctx', ws'⟩, hworker, rfl⟩ := Option.map_eq_some_iff.mp h
    obtain ⟨e, hturn, hdoes⟩ := workerStep_turn hworker
    exact .worker hturn hdoes
  | writer =>
    obtain ⟨sink, hsink, rfl⟩ := Option.map_eq_some_iff.mp h
    exact .wrote hsink
  | writerTimeout =>
    obtain ⟨sink, hsink, rfl⟩ := Option.map_eq_some_iff.mp h
    exact .timedOut hsink

theorem Reachable.step {s s' : State J.concurrency} {a : Action R J.concurrency}
    (h : Reachable J s) (hs : Core.step J s a = some s') : Reachable J s' := by
  obtain ⟨now, wall, actions, hrun⟩ := h
  exact ⟨now, wall, actions ++ [a], Runs.exec_snoc.mpr ⟨s, hrun, hs⟩⟩

theorem Reachable.exec {s s' : State J.concurrency} {actions : List (Action R J.concurrency)}
    (h : Reachable J s) (hs : Runs.exec (Core.step J) s actions = some s') : Reachable J s' := by
  obtain ⟨now, wall, before, hrun⟩ := h
  exact ⟨now, wall, before ++ actions, Runs.exec_append.mpr ⟨s, hrun, hs⟩⟩

theorem reachable_start (J : JobRunner R) (now wall : ℚ) : Reachable J (J.start now wall) :=
  ⟨now, wall, [], rfl⟩

/-- What holds at every start of the job and is kept by every step from a reachable
state holds in every reachable state. -/
theorem Reachable.step_invariant {I : State J.concurrency → Prop}
    (hstart : ∀ now wall, I (J.start now wall))
    (hstep : ∀ s a s', Reachable J s → I s → Core.step J s a = some s' → I s')
    {s : State J.concurrency} (h : Reachable J s) : I s := by
  obtain ⟨now, wall, actions, hrun⟩ := h
  have hboth : Reachable J s ∧ I s := by
    refine Runs.exec_invariant' (I := fun s => Reachable J s ∧ I s) ?_
      ⟨reachable_start J now wall, hstart now wall⟩ hrun
    exact fun s a t hs ht => ⟨hs.1.step ht, hstep s a t hs.1 hs.2 ht⟩
  exact hboth.2

/-- The same rule, with a step given by what it can do. -/
theorem Reachable.invariant {I : State J.concurrency → Prop}
    (hstart : ∀ now wall, I (J.start now wall))
    (hstep : ∀ s a s', Reachable J s → I s → JobTurn J s a s' → I s') {s : State J.concurrency}
    (h : Reachable J s) : I s :=
  h.step_invariant hstart fun s a s' hreach hs ht => hstep s a s' hreach hs (step_turn ht)

end Inversion

end BatchEngine.Core
