import BatchEngine.Core.Emissions
import BatchEngine.Core.TerminalStatus

/-!
# What is over when a job is finalised

`close` marks the end of the sink's queue once no worker is left to submit a row, and
`run` goes on only when the writer has reached the mark. From then on neither the
record's counters nor the result file change.
-/

set_option autoImplicit false

namespace BatchEngine.Core

open BatchEngine.Providers

variable {R : Type*} {J : JobRunner R}

/-! ## The writer's queue -/

/-- The sink before `close`, between `close` and the end of its writer, and after it. -/
inductive SinkStage where
  | filling
  | closing
  | written

def RunPhase.sinkStage : RunPhase → SinkStage
  | .closingSink _ => .closing
  | .savingFinal | .delivering | .finished _ => .written
  | _ => .filling

/-- The writer has seen the mark, and nothing was queued behind it. -/
structure ResultSink.Complete (sink : ResultSink) : Prop where
  done : sink.done = true
  queue : sink.queue = []
  fsynced : sink.fsynced = sink.file.length

def SinkFacts (stage : SinkStage) (sink : ResultSink) : Prop :=
  match stage with
  | .filling => sink.done = false ∧ ∃ rows : List Row, sink.queue = rows.map some
  | .closing =>
    (sink.done = false ∧ ∃ rows : List Row, sink.queue = rows.map some ++ [none]) ∨ sink.Complete
  | .written => sink.Complete

theorem ResultSink.Complete.file_eq {sink : ResultSink} (h : sink.Complete) :
    sink.file = sink.submitted := by
  rw [ResultSink.submitted, h.queue]
  exact (List.append_nil _).symm

theorem afterPass_queue (sink : ResultSink) (now : ℚ) :
    (sink.afterPass now).queue = sink.queue ∧ (sink.afterPass now).done = sink.done := by
  unfold ResultSink.afterPass
  split <;> exact ⟨rfl, rfl⟩

/-- The writer takes a row, or the mark that ends it. -/
theorem writerStep_cases {sink sink' : ResultSink} {now : ℚ}
    (h : sink.writerStep now = some sink') : sink.done = false ∧
      ((∃ row, sink.queue = some row :: sink'.queue ∧ sink'.done = false) ∨
        (sink.queue = none :: sink'.queue ∧ sink'.done = true ∧
          sink'.fsynced = sink'.file.length)) := by
  unfold ResultSink.writerStep at h
  split at h
  · cases h
  · rename_i hdone
    have hopen : sink.done = false := Bool.not_eq_true _ ▸ hdone
    split at h
    · cases h
    · rename_i rest hq
      obtain rfl := Option.some.inj h
      exact ⟨hopen, Or.inr ⟨hq, rfl, rfl⟩⟩
    · rename_i row rest hq
      obtain rfl := Option.some.inj h
      obtain ⟨hqueue, hdone'⟩ := afterPass_queue { sink with
        queue := rest, file := sink.file ++ [row], unflushed := sink.unflushed + 1 } now
      exact ⟨hopen, Or.inl ⟨row, by rw [hqueue]; exact hq, hdone'.trans hopen⟩⟩

theorem writerTimeout_cases {sink sink' : ResultSink} {now : ℚ}
    (h : sink.writerTimeout now = some sink') :
    sink.done = false ∧ sink'.queue = sink.queue ∧ sink'.done = sink.done := by
  unfold ResultSink.writerTimeout at h
  split at h
  · rename_i hwait
    obtain rfl := Option.some.inj h
    obtain ⟨hqueue, hdone⟩ := afterPass_queue sink now
    exact ⟨Bool.not_eq_true _ ▸ hwait.1, hqueue, hdone⟩
  · cases h

theorem not_complete_of_open {sink : ResultSink} (h : sink.done = false) : ¬ sink.Complete := by
  intro hcomplete
  rw [hcomplete.done] at h
  cases h

theorem sinkFacts_writer {stage : SinkStage} {sink sink' : ResultSink} {now : ℚ}
    (hs : SinkFacts stage sink) (h : sink.writerStep now = some sink') : SinkFacts stage sink' := by
  obtain ⟨hopen, hcase⟩ := writerStep_cases h
  have hnot := not_complete_of_open hopen
  cases stage with
  | filling =>
    obtain ⟨-, rows, hrows⟩ := hs
    rcases hcase with ⟨row, hq, hdone⟩ | ⟨hq, -, -⟩
    · rw [hq] at hrows
      cases rows with
      | nil => cases hrows
      | cons r rows => exact ⟨hdone, rows, (List.cons.inj hrows).2⟩
    · rw [hq] at hrows
      cases rows with
      | nil => cases hrows
      | cons r rows => cases (List.cons.inj hrows).1
  | closing =>
    obtain ⟨-, rows, hrows⟩ := hs.resolve_right hnot
    rcases hcase with ⟨row, hq, hdone⟩ | ⟨hq, hdone, hfsynced⟩
    · rw [hq] at hrows
      cases rows with
      | nil => cases (List.cons.inj hrows).1
      | cons r rows => exact Or.inl ⟨hdone, rows, (List.cons.inj hrows).2⟩
    · rw [hq] at hrows
      cases rows with
      | nil => exact Or.inr ⟨hdone, (List.cons.inj hrows).2, hfsynced⟩
      | cons r rows => cases (List.cons.inj hrows).1
  | written => exact absurd hs hnot

theorem sinkFacts_timeout {stage : SinkStage} {sink sink' : ResultSink} {now : ℚ}
    (hs : SinkFacts stage sink) (h : sink.writerTimeout now = some sink') :
    SinkFacts stage sink' := by
  obtain ⟨hopen, hqueue, hdone⟩ := writerTimeout_cases h
  have hnot := not_complete_of_open hopen
  cases stage with
  | filling => exact ⟨hdone.trans hs.1, hqueue ▸ hs.2⟩
  | closing =>
    obtain ⟨hdone', hrows⟩ := hs.resolve_right hnot
    exact Or.inl ⟨hdone.trans hdone', hqueue ▸ hrows⟩
  | written => exact absurd hs hnot

theorem foldl_submit (rows : List Row) (sink : ResultSink) :
    (rows.foldl ResultSink.submit sink).queue = sink.queue ++ rows.map some ∧
      (rows.foldl ResultSink.submit sink).done = sink.done := by
  induction rows generalizing sink with
  | nil => exact ⟨(List.append_nil _).symm, rfl⟩
  | cons row rows ih =>
    obtain ⟨hqueue, hdone⟩ := ih (sink.submit row)
    refine ⟨?_, hdone⟩
    rw [List.foldl_cons, hqueue]
    exact List.append_assoc _ _ _

/-! ## Along a run -/

/-- What a step does to the sink. -/
inductive SinkTurn {n : ℕ} (s s' : State n) : Prop
  | rests (hstage : s'.phase.sinkStage = s.phase.sinkStage) (hsink : s'.ctx.sink = s.ctx.sink)
  | submits (rows : List Row) (hphase : s'.phase = s.phase) (hopen : ¬ s.phase.Drained)
      (hsink : s'.ctx.sink = rows.foldl ResultSink.submit s.ctx.sink)
  | writes (now : ℚ) (hphase : s'.phase = s.phase)
      (hsink : s.ctx.sink.writerStep now = some s'.ctx.sink)
  | waits (now : ℚ) (hphase : s'.phase = s.phase)
      (hsink : s.ctx.sink.writerTimeout now = some s'.ctx.sink)
  | closes (hstage : s.phase.sinkStage = .filling) (hstage' : s'.phase.sinkStage = .closing)
      (hsink : s'.ctx.sink = s.ctx.sink.close)
  | ends (hstage : s.phase.sinkStage = .closing) (hstage' : s'.phase.sinkStage = .written)
      (hdone : s.ctx.sink.done = true) (hsink : s'.ctx.sink = s.ctx.sink)

/-- `run` leaves the sink's `close` when the writer has returned. -/
theorem closingSink_done {s s' : State J.concurrency} {raises : Bool} {exc : Option RunException}
    (h : step J s (.runner raises) = some s') (hphase : s.phase = .closingSink exc) :
    s.ctx.sink.done = true := by
  simp only [step, runnerStep, hphase] at h
  cases hdone : s.ctx.sink.done with
  | true => rfl
  | false => cases exc <;> cases raises <;> simp [hdone] at h

theorem sinkStage_of_not_drained {p : RunPhase} (h : ¬ p.Drained) : p.sinkStage = .filling := by
  cases p <;> first | rfl | exact absurd trivial h

theorem step_sink {s s' : State J.concurrency} {a : Action R J.concurrency} (hreach : Reachable J s)
    (h : step J s a = some s') : SinkTurn s s' := by
  cases step_turn h with
  | wrote hsink => exact .writes _ rfl hsink
  | timedOut hsink => exact .waits _ rfl hsink
  | @worker i input ctx' ws' e hturn hdoes =>
    obtain ⟨⟨ctx'', ws''⟩, hworker, hs'⟩ := Option.map_eq_some_iff.mp h
    obtain ⟨rows, boxes, -, hleaves⟩ := workerStep_emission hworker
    have hctx : ctx'' = ctx' := congrArg State.ctx hs'
    refine .submits rows rfl (worker_not_drained hreach hturn) ?_
    rw [← hctx]
    exact hleaves.sink
  | gathered hphase _ => exact .closes (by rw [hphase]; rfl) rfl rfl
  | reraised hphase => exact .ends (by rw [hphase]; rfl) rfl (closingSink_done h hphase) rfl
  | costRaised hphase _ => exact .ends (by rw [hphase]; rfl) rfl (closingSink_done h hphase) rfl
  | finalized hphase =>
    refine .ends (by rw [hphase]; rfl) ?_ (closingSink_done h hphase) rfl
    simp only
    split <;> rfl
  | put hphase _ hnext =>
    rcases hnext with rfl | rfl | rfl <;> exact .rests (by rw [hphase]; rfl) rfl
  | saved hphase hnext =>
    rcases hnext with rfl | rfl <;> exact .rests (by rw [hphase]; rfl) rfl
  | tick _ => exact .rests rfl rfl
  | cancel => exact .rests rfl rfl
  | begun hphase => exact .rests (by rw [hphase]; rfl) rfl
  | ended hphase _ => exact .rests (by rw [hphase]; rfl) rfl
  | dropped hphase _ _ => exact .rests (by rw [hphase]; rfl) rfl
  | ingested hphase _ => exact .rests (by rw [hphase]; rfl) rfl
  | closed hphase => exact .rests (by rw [hphase]; rfl) rfl
  | sentinel hphase _ => exact .rests (by rw [hphase]; rfl) rfl
  | gathering hphase => exact .rests (by rw [hphase]; rfl) rfl
  | savedFinal hphase => exact .rests (by rw [hphase]; rfl) rfl
  | delivered hphase => exact .rests (by rw [hphase]; rfl) rfl

theorem step_sinkFacts {n : ℕ} {s s' : State n} (h : SinkTurn s s')
    (hs : SinkFacts s.phase.sinkStage s.ctx.sink) : SinkFacts s'.phase.sinkStage s'.ctx.sink := by
  cases h with
  | rests hstage hsink =>
    rw [hstage, hsink]
    exact hs
  | submits rows hphase hopen hsink =>
    rw [hphase, hsink]
    rw [sinkStage_of_not_drained hopen] at hs ⊢
    obtain ⟨hdone, old, hqueue⟩ := hs
    obtain ⟨hqueue', hdone'⟩ := foldl_submit rows s.ctx.sink
    exact ⟨hdone'.trans hdone, old ++ rows, by rw [hqueue', hqueue, List.map_append]⟩
  | writes now hphase hsink =>
    rw [hphase]
    exact sinkFacts_writer hs hsink
  | waits now hphase hsink =>
    rw [hphase]
    exact sinkFacts_timeout hs hsink
  | closes hstage hstage' hsink =>
    rw [hstage] at hs
    rw [hstage', hsink]
    obtain ⟨hdone, rows, hqueue⟩ := hs
    exact Or.inl ⟨hdone, rows, congrArg (· ++ [none]) hqueue⟩
  | ends hstage hstage' hdone hsink =>
    rw [hstage] at hs
    rw [hstage', hsink]
    rcases hs with ⟨hopen, -⟩ | hcomplete
    · rw [hdone] at hopen
      cases hopen
    · exact hcomplete

theorem reachable_sinkFacts {s : State J.concurrency} (h : Reachable J s) :
    SinkFacts s.phase.sinkStage s.ctx.sink := by
  refine h.step_invariant (I := fun s => SinkFacts s.phase.sinkStage s.ctx.sink) ?_ ?_
  · exact fun now wall => ⟨rfl, [], rfl⟩
  · exact fun s a s' hreach hs ht => step_sinkFacts (step_sink hreach ht) hs

/-! ## After the end -/

theorem sinkStage_of_stage {p : RunPhase} (h : p.stage ≠ .unfinalized) : p.sinkStage = .written := by
  cases p <;> first | rfl | exact absurd rfl h

/-- A terminal status is set once the writer has finished. -/
theorem stage_of_terminal {s : State J.concurrency} (h : Reachable J s)
    (hterminal : s.ctx.record.status.IsTerminal) : s.phase.stage ≠ .unfinalized := by
  intro hstage
  have hfacts := reachable_stageFacts h
  rw [hstage] at hfacts
  exact hfacts.1 hterminal

/-- The store holds no terminal record before the last save. -/
theorem reachable_storeOpen {s : State J.concurrency} (h : Reachable J s) :
    s.phase.stage ≠ .saved → StoreOpen s.store := by
  refine h.invariant (I := fun s => s.phase.stage ≠ .saved → StoreOpen s.store) ?_ ?_
  · exact fun now wall _ r hr => by cases hr
  · intro s a s' hreach hs ht hopen
    have hfacts := reachable_stageFacts hreach
    have hfacts' := step_stageFacts (step_stage hreach ht) hfacts
    cases step_stage hreach ht with
    | rests hstage _ hstore =>
      rw [hstore]
      exact hs (hstage ▸ hopen)
    | works _ hstage' _ _ _ =>
      rw [hstage'] at hfacts'
      exact hfacts'.2
    | finalizes hstage _ _ hstore =>
      rw [hstore]
      exact hs (by rw [hstage]; exact nofun)
    | saves _ hstage' _ _ => exact absurd hstage' hopen

/-- What a request can see of a job's record: the record itself, or its saved copy. -/
def Visible {n : ℕ} (s : State n) (r : JobRecord) : Prop := r = s.ctx.record ∨ s.store = some r

theorem visible_terminal {s : State J.concurrency} (h : Reachable J s) {r : JobRecord}
    (hr : Visible s r) (hterminal : r.status.IsTerminal) : r = s.ctx.record := by
  rcases hr with hr | hr
  · exact hr
  · by_cases hsaved : s.phase.stage = .saved
    · have hfacts := reachable_stageFacts h
      rw [hsaved] at hfacts
      exact Option.some.inj (hr.symm.trans hfacts.2.2)
    · exact absurd hterminal (reachable_storeOpen h hsaved r hr)

/-- Nothing changes the record or the file of a finalised job. -/
theorem run_final {s s' : State J.concurrency} (h : Reachable J s)
    (hstage : s.phase.stage ≠ .unfinalized) {later : List (Action R J.concurrency)}
    (hrun : Runs.exec (step J) s later = some s') :
    s'.ctx.record = s.ctx.record ∧ s'.ctx.sink.file = s.ctx.sink.file := by
  have hkept : Reachable J s' ∧ s'.phase.stage ≠ .unfinalized ∧
      s'.ctx.record = s.ctx.record ∧ s'.ctx.sink.file = s.ctx.sink.file := by
    refine Runs.exec_invariant' (I := fun t : State J.concurrency => Reachable J t ∧
      t.phase.stage ≠ .unfinalized ∧ t.ctx.record = s.ctx.record ∧
      t.ctx.sink.file = s.ctx.sink.file) ?_ ⟨h, hstage, rfl, rfl⟩ hrun
    rintro t a u ⟨hreach, hfinal, hrecord, hfile⟩ ht
    have hsink : u.ctx.sink = t.ctx.sink := by
      have hfacts := reachable_sinkFacts hreach
      rw [sinkStage_of_stage hfinal] at hfacts
      have hdone : t.ctx.sink.done = true := hfacts.done
      cases step_sink hreach ht with
      | rests _ hsink => exact hsink
      | submits _ _ hopen _ => exact absurd (drained_of_stage hfinal) hopen
      | writes now _ hsink =>
        have hopen := (writerStep_cases hsink).1
        rw [hdone] at hopen
        cases hopen
      | waits now _ hsink =>
        have hopen := (writerTimeout_cases hsink).1
        rw [hdone] at hopen
        cases hopen
      | closes hstage _ _ =>
        rw [sinkStage_of_stage hfinal] at hstage
        cases hstage
      | ends _ _ _ hsink => exact hsink
    have hrests : u.phase.stage ≠ .unfinalized ∧ u.ctx.record = t.ctx.record := by
      cases step_stage hreach (step_turn ht) with
      | rests hstage hrecord _ => exact ⟨hstage ▸ hfinal, hrecord⟩
      | works hstage _ _ _ _ => exact absurd hstage hfinal
      | finalizes hstage _ _ _ => exact absurd hstage hfinal
      | saves _ hstage' hrecord _ => exact ⟨by rw [hstage']; exact nofun, hrecord⟩
    exact ⟨hreach.step ht, hrests.1, hrests.2.trans hrecord, by rw [hsink, hfile]⟩
  exact hkept.2.2

/-- The file of a finalised job holds every row that was submitted, in that order. -/
theorem final_file {s : State J.concurrency} (h : Reachable J s)
    (hstage : s.phase.stage ≠ .unfinalized) :
    s.ctx.sink.file = s.ctx.sink.submitted ∧ s.ctx.sink.fsynced = s.ctx.sink.file.length := by
  have hfacts := reachable_sinkFacts h
  rw [sinkStage_of_stage hstage] at hfacts
  have hcomplete : s.ctx.sink.Complete := hfacts
  exact ⟨hcomplete.file_eq, hcomplete.fsynced⟩

end BatchEngine.Core
