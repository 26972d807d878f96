import BatchEngine.Core.SinkOrder
import BatchEngine.Core.SpendGuard

/-!
# What a crash can lose

An item is counted when its row is handed to the writer's queue, which has no bound; the
row is safe when the writer has taken it and flushed. The writer flushes before its window
is full, so what a crash can lose is less than a window and what the workers are ahead of
the writer; nothing bounds the latter.
-/

set_option autoImplicit false

namespace BatchEngine.Core

open BatchEngine.Providers

variable {R : Type*} {J : JobRunner R}

/-- The items that are counted and whose row a crash would lose. -/
def atRisk {n : ℕ} (s : State n) : ℕ :=
  s.ctx.record.counts.succeeded + s.ctx.record.counts.failed - s.ctx.sink.fsynced

/-- The rows in the writer's queue. -/
def ResultSink.queued (sink : ResultSink) : ℕ := (sink.queue.filterMap id).length

/-- The rows in the writer's queue and in its open window. -/
def ResultSink.backlog (sink : ResultSink) : ℕ := sink.queued + sink.unflushed

/-- How many rows the step hands to the sink. -/
def handed {n : ℕ} (s s' : State n) : ℕ :=
  s'.ctx.sink.submitted.length - s.ctx.sink.submitted.length

/-- The step finds the writer so far on that, with what it hands over, the queue holds at most
`k` rows. -/
def KeepsPace (J : JobRunner R) (k : ℕ) (s : State J.concurrency) (a : Action R J.concurrency) :
    Prop :=
  ∀ s' ∈ step J s a, handed s s' ≠ 0 → s.ctx.sink.queued + handed s s' ≤ k

instance (k : ℕ) (s : State J.concurrency) (a : Action R J.concurrency) :
    Decidable (KeepsPace J k s a) :=
  inferInstanceAs (Decidable (∀ s' ∈ step J s a, _))

/-! ## What the writer has flushed -/

/-- The window is what the file has beyond the flushed rows. -/
structure Flushed (sink : ResultSink) : Prop where
  ahead : sink.fsynced ≤ sink.file.length
  window : sink.done = false → sink.fsynced + sink.unflushed = sink.file.length

theorem Flushed.afterPass {sink : ResultSink} (h : Flushed sink) (now : ℚ) :
    Flushed (sink.afterPass now) ∧ sink.fsynced ≤ (sink.afterPass now).fsynced := by
  unfold ResultSink.afterPass
  split
  · exact ⟨⟨Nat.le_refl _, fun _ => Nat.add_zero _⟩, h.ahead⟩
  · exact ⟨⟨h.ahead, h.window⟩, Nat.le_refl _⟩

theorem Flushed.writerStep {sink sink' : ResultSink} {now : ℚ} (h : Flushed sink)
    (hstep : sink.writerStep now = some sink') : Flushed sink' ∧ sink.fsynced ≤ sink'.fsynced := by
  unfold ResultSink.writerStep at hstep
  split at hstep
  · cases hstep
  · rename_i hdone
    have hopen : sink.done = false := Bool.not_eq_true _ ▸ hdone
    split at hstep
    · cases hstep
    · obtain rfl := Option.some.inj hstep
      exact ⟨⟨Nat.le_refl _, nofun⟩, h.ahead⟩
    · rename_i row rest _
      obtain rfl := Option.some.inj hstep
      have hlength : (sink.file ++ [row]).length = sink.file.length + 1 := List.length_append
      have hwritten : Flushed { sink with
          queue := rest, file := sink.file ++ [row], unflushed := sink.unflushed + 1 } := by
        constructor
        · show _ ≤ (sink.file ++ [row]).length
          rw [hlength]
          exact Nat.le_succ_of_le h.ahead
        · intro _
          show sink.fsynced + (sink.unflushed + 1) = (sink.file ++ [row]).length
          rw [hlength, ← h.window hopen, Nat.add_assoc]
      exact hwritten.afterPass now

theorem Flushed.writerTimeout {sink sink' : ResultSink} {now : ℚ} (h : Flushed sink)
    (hstep : sink.writerTimeout now = some sink') :
    Flushed sink' ∧ sink.fsynced ≤ sink'.fsynced := by
  unfold ResultSink.writerTimeout at hstep
  split at hstep
  · obtain rfl := Option.some.inj hstep
    exact h.afterPass now
  · cases hstep

theorem Flushed.submits {sink : ResultSink} (h : Flushed sink) (rows : List Row) :
    Flushed (rows.foldl ResultSink.submit sink) ∧
      (rows.foldl ResultSink.submit sink).fsynced = sink.fsynced := by
  induction rows generalizing sink with
  | nil => exact ⟨h, rfl⟩
  | cons row rows ih =>
    have hfirst : Flushed (sink.submit row) := ⟨h.ahead, h.window⟩
    exact ih hfirst

theorem step_flushed {n : ℕ} {s s' : State n} (h : SinkTurn s s') (hs : Flushed s.ctx.sink) :
    Flushed s'.ctx.sink := by
  cases h with
  | rests _ hsink => exact hsink ▸ hs
  | submits rows _ _ hsink => exact hsink ▸ (hs.submits rows).1
  | writes _ _ hsink => exact (hs.writerStep hsink).1
  | waits _ _ hsink => exact (hs.writerTimeout hsink).1
  | closes _ _ hsink => exact hsink ▸ ⟨hs.ahead, hs.window⟩
  | ends _ _ _ hsink => exact hsink ▸ hs

theorem reachable_flushed {s : State J.concurrency} (h : Reachable J s) : Flushed s.ctx.sink := by
  refine h.step_invariant (I := fun s => Flushed s.ctx.sink) ?_ ?_
  · exact fun now wall => ⟨Nat.le_refl _, fun _ => rfl⟩
  · exact fun s a s' hreach hs ht => step_flushed (step_sink hreach ht) hs

/-! ## What is at risk -/

/-- The counted items are the submitted rows. -/
theorem atRisk_eq {s : State J.concurrency} (h : Reachable J s) :
    atRisk s = s.ctx.sink.submitted.length - s.ctx.sink.fsynced := by
  have htally := reachable_tallied h
  have hsucceeded := htally.succeeded
  have hfailed := htally.failed
  unfold atRisk
  omega

/-- While the sink is open, what is at risk is what its writer has before it. -/
theorem submitted_length {sink : ResultSink} (h : Flushed sink) (hopen : sink.done = false) :
    sink.submitted.length = sink.fsynced + sink.backlog := by
  have hwindow := h.window hopen
  rw [ResultSink.submitted, List.length_append, ResultSink.backlog, ResultSink.queued]
  omega

/-- Either the step hands over nothing and no more is at risk after it, or all that is at
risk after it was before the writer or has just been handed over. -/
theorem step_atRisk {s s' : State J.concurrency} {a : Action R J.concurrency}
    (hreach : Reachable J s) (h : step J s a = some s') :
    (handed s s' = 0 ∧ atRisk s' ≤ atRisk s) ∨
      (handed s s' ≠ 0 ∧ atRisk s' = s.ctx.sink.backlog + handed s s') := by
  have hflushed := reachable_flushed hreach
  have hsame : s'.ctx.sink.submitted = s.ctx.sink.submitted →
      s.ctx.sink.fsynced ≤ s'.ctx.sink.fsynced → handed s s' = 0 ∧ atRisk s' ≤ atRisk s := by
    intro hsubmitted hfsynced
    rw [atRisk_eq hreach, atRisk_eq (hreach.step h), handed, hsubmitted]
    exact ⟨Nat.sub_self _, Nat.sub_le_sub_left hfsynced _⟩
  cases step_sink hreach h with
  | rests _ hsink => exact Or.inl (hsame (by rw [hsink]) (by rw [hsink]))
  | writes _ _ hsink =>
    exact Or.inl (hsame (ResultSink.submitted_writerStep hsink) (hflushed.writerStep hsink).2)
  | waits _ _ hsink =>
    exact Or.inl (hsame (ResultSink.submitted_writerTimeout hsink) (hflushed.writerTimeout hsink).2)
  | closes _ _ hsink =>
    refine Or.inl (hsame ?_ ?_)
    · rw [hsink]
      exact ResultSink.submitted_close _
    · rw [hsink]
      exact Nat.le_refl _
  | ends _ _ _ hsink => exact Or.inl (hsame (by rw [hsink]) (by rw [hsink]))
  | submits rows hphase hopen hsink =>
    by_cases hrows : rows = []
    · subst hrows
      exact Or.inl (hsame (congrArg ResultSink.submitted hsink)
        (congrArg ResultSink.fsynced hsink).ge)
    right
    have hpos := List.length_pos_iff.mpr hrows
    have hfacts := reachable_sinkFacts hreach
    rw [sinkStage_of_not_drained hopen] at hfacts
    have hlength := submitted_length hflushed hfacts.1
    have hlength' : s'.ctx.sink.submitted.length = s.ctx.sink.submitted.length + rows.length := by
      rw [hsink, ResultSink.submitted_submits, List.length_append]
    have hfsynced : s'.ctx.sink.fsynced = s.ctx.sink.fsynced := by
      rw [hsink]
      exact (hflushed.submits rows).2
    rw [atRisk_eq (hreach.step h), handed]
    omega

/-! ## The open window -/

/-- A pass of the writer does not end with a full window. -/
theorem afterPass_few (sink : ResultSink) (now : ℚ) :
    (sink.afterPass now).unflushed < flushEveryRows := by
  unfold ResultSink.afterPass
  split
  · show 0 < flushEveryRows
    decide
  · rename_i hfull
    rw [not_or] at hfull
    exact Nat.lt_of_not_le hfull.1

theorem writerStep_few {sink sink' : ResultSink} {now : ℚ}
    (hs : sink.unflushed < flushEveryRows) (h : sink.writerStep now = some sink') :
    sink'.unflushed < flushEveryRows := by
  unfold ResultSink.writerStep at h
  split at h
  · cases h
  · split at h
    · cases h
    · obtain rfl := Option.some.inj h
      exact hs
    · obtain rfl := Option.some.inj h
      exact afterPass_few _ now

theorem writerTimeout_few {sink sink' : ResultSink} {now : ℚ}
    (h : sink.writerTimeout now = some sink') : sink'.unflushed < flushEveryRows := by
  unfold ResultSink.writerTimeout at h
  split at h
  · obtain rfl := Option.some.inj h
    exact afterPass_few sink now
  · cases h

theorem submits_unflushed (rows : List Row) (sink : ResultSink) :
    (rows.foldl ResultSink.submit sink).unflushed = sink.unflushed := by
  induction rows generalizing sink with
  | nil => rfl
  | cons row rows ih => exact ih (sink.submit row)

theorem step_few {n : ℕ} {s s' : State n} (h : SinkTurn s s')
    (hs : s.ctx.sink.unflushed < flushEveryRows) : s'.ctx.sink.unflushed < flushEveryRows := by
  cases h with
  | rests _ hsink => exact hsink ▸ hs
  | submits rows _ _ hsink =>
    rw [hsink, submits_unflushed]
    exact hs
  | writes _ _ hsink => exact writerStep_few hs hsink
  | waits _ _ hsink => exact writerTimeout_few hsink
  | closes _ _ hsink => exact hsink ▸ hs
  | ends _ _ _ hsink => exact hsink ▸ hs

theorem reachable_few {s : State J.concurrency} (h : Reachable J s) :
    s.ctx.sink.unflushed < flushEveryRows := by
  refine h.step_invariant (I := fun s => s.ctx.sink.unflushed < flushEveryRows) ?_ ?_
  · intro now wall
    show 0 < flushEveryRows
    decide
  · exact fun s a s' hreach hs ht => step_few (step_sink hreach ht) hs

/-! ## The law -/

/-- With the workers at most `k` rows ahead of the writer, less than a window and `k` rows are
at risk. -/
theorem atRisk_lt (k : ℕ) {now wall : ℚ} {actions : List (Action R J.concurrency)}
    {s : State J.concurrency} (hrun : Runs.exec (step J) (J.start now wall) actions = some s)
    (hpace : Runs.Along (step J) (KeepsPace J k) (J.start now wall) actions) :
    atRisk s < flushEveryRows + k := by
  have hkept : Reachable J s ∧ atRisk s < flushEveryRows + k := by
    refine hpace.invariant (I := fun s => Reachable J s ∧ atRisk s < flushEveryRows + k) ?_
      ⟨reachable_start J now wall, ?_⟩ hrun
    · rintro s a s' ⟨hs, hle⟩ hstep ht
      refine ⟨hs.step ht, ?_⟩
      rcases step_atRisk hs ht with ⟨-, hless⟩ | ⟨hrows, hrisk⟩
      · exact Nat.lt_of_le_of_lt hless hle
      · have hahead := hstep s' ht hrows
        have hfew := reachable_few hs
        rw [hrisk, ResultSink.backlog]
        omega
    · show 0 < flushEveryRows + k
      exact Nat.lt_of_lt_of_le (by decide) (Nat.le_add_right flushEveryRows k)
  exact hkept.2

/-- At most 100 counted rows are at risk in every state of a run in which a row is handed
over only once the writer has taken all rows before it. -/
theorem loss_bounded {now wall : ℚ} {actions : List (Action R J.concurrency)}
    {s : State J.concurrency} (hrun : Runs.exec (step J) (J.start now wall) actions = some s)
    (hpace : Runs.Along (step J) (KeepsPace J 1) (J.start now wall) actions) : atRisk s ≤ 100 :=
  Nat.le_of_lt_succ (atRisk_lt 1 hrun hpace)

/-- 101 malformed rows for one worker. -/
def malformed : JobRunner CallResult where
  provider := scripted (1 / 5) (1 / 5)
  config := { concurrency := some 1 }
  input :=
    { entries :=
        List.replicate 101 (.error ⟨"bad", .invalidInput, .ingest "malformed JSON line", 1, none⟩) }

/-- The rows from number `k` on are read, queued, taken and written one at a time. -/
def readAndWrite : ℕ → ℕ → List (Action CallResult 1)
  | _, 0 => []
  | k, left + 1 => readAndTake k 1 ++ .writer :: readAndWrite (k + 1) left

def malformedPaced : List (Action CallResult malformed.concurrency) :=
  .runner false :: readAndWrite 1 101

def malformedWritten : State 1 :=
  (Runs.exec (step malformed) (malformed.start 0 0) malformedPaced).get (by decide +kernel)

/-- The writer takes every row before the next; it has flushed at the 100th. -/
theorem loss_bounded_malformed :
    done malformedWritten.ctx.record.counts = 101 ∧ atRisk malformedWritten ≤ 100 := by
  have hrun : Runs.exec (step malformed) (malformed.start 0 0) malformedPaced =
      some malformedWritten := (Option.some_get _).symm
  have hpace : Runs.Along (step malformed) (KeepsPace malformed 1) (malformed.start 0 0)
      malformedPaced := by decide +kernel
  exact ⟨by decide +kernel, loss_bounded hrun hpace⟩

/-- 99 rows are in the open window when the worker takes two more in a row. -/
def malformedRun : List (Action CallResult 1) :=
  .runner false :: readAndWrite 1 99 ++ List.replicate 5 (.runner false) ++ [takeOne, takeOne]

def malformedAhead : State malformed.concurrency :=
  (Runs.exec (step malformed) (malformed.start 0 0) malformedRun).get (by decide +kernel)

theorem loss_unbounded : ∃ (J : JobRunner CallResult) (s : State J.concurrency),
    Reachable J s ∧ ¬ atRisk s ≤ 100 :=
  ⟨malformed, malformedAhead, ⟨0, 0, malformedRun, (Option.some_get _).symm⟩, by decide +kernel⟩

end BatchEngine.Core
