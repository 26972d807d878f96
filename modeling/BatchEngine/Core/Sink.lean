import BatchEngine.Core.Models
import Mathlib.Algebra.Order.Ring.Rat

/-!
# The single-writer result sink

Workers hand rows to an unbounded queue; one writer task moves them to the file.
`fsynced` is how many of the file's rows a flush has covered.
-/

set_option autoImplicit false

namespace BatchEngine.Core

def flushEveryRows : ℕ := 100
def flushEverySeconds : ℚ := 2

/-- `none` in the queue is the mark that `close` puts there. `waitingSince` is when the
writer began its current wait for a row. -/
structure ResultSink where
  queue : List (Option Row) := []
  file : List Row := []
  fsynced : ℕ := 0
  unflushed : ℕ := 0
  lastFlush : ℚ := 0
  waitingSince : ℚ := 0
  done : Bool := false
  deriving DecidableEq, Repr

namespace ResultSink

def start (now : ℚ) : ResultSink := { lastFlush := now, waitingSince := now }

def submit (s : ResultSink) (row : Row) : ResultSink := { s with queue := s.queue ++ [some row] }

/-- The first step of `close`; it then awaits the writer. -/
def close (s : ResultSink) : ResultSink := { s with queue := s.queue ++ [none] }

def flush (s : ResultSink) : ResultSink := { s with fsynced := s.file.length }

/-- The end of a pass of the writer: flush when the window is full or old. -/
def afterPass (s : ResultSink) (now : ℚ) : ResultSink :=
  if flushEveryRows ≤ s.unflushed ∨ (0 < s.unflushed ∧ flushEverySeconds ≤ now - s.lastFlush) then
    { s.flush with unflushed := 0, lastFlush := now, waitingSince := now }
  else { s with waitingSince := now }

/-- The writer takes the next thing from its queue. -/
def writerStep (s : ResultSink) (now : ℚ) : Option ResultSink :=
  if s.done then none
  else match s.queue with
    | [] => none
    | none :: rest => some { s.flush with queue := rest, done := true }
    | some row :: rest =>
      some (afterPass { s with queue := rest, file := s.file ++ [row],
                               unflushed := s.unflushed + 1 } now)

/-- The writer's wait for a row times out. -/
def writerTimeout (s : ResultSink) (now : ℚ) : Option ResultSink :=
  if ¬ s.done ∧ s.queue = [] ∧ flushEverySeconds ≤ now - s.waitingSince then some (s.afterPass now)
  else none

/-- The rows submitted so far, in order, whether or not they have reached the file. -/
def submitted (s : ResultSink) : List Row := s.file ++ s.queue.filterMap id

@[simp] theorem submitted_start (now : ℚ) : (start now).submitted = [] := rfl

@[simp] theorem submitted_submit (s : ResultSink) (row : Row) :
    (s.submit row).submitted = s.submitted ++ [row] := by
  simp [submitted, submit]

@[simp] theorem submitted_close (s : ResultSink) : s.close.submitted = s.submitted := by
  simp [submitted, close]

theorem submitted_submits (rows : List Row) (s : ResultSink) :
    (rows.foldl submit s).submitted = s.submitted ++ rows := by
  induction rows generalizing s with
  | nil => exact (List.append_nil _).symm
  | cons row rows ih =>
    rw [List.foldl_cons, ih, submitted_submit, List.append_assoc]
    rfl

theorem submitted_afterPass (s : ResultSink) (now : ℚ) :
    (s.afterPass now).submitted = s.submitted := by
  unfold afterPass
  split <;> rfl

/-- The writer moves rows; it neither loses nor reorders one. -/
theorem submitted_writerStep {s s' : ResultSink} {now : ℚ} (h : s.writerStep now = some s') :
    s'.submitted = s.submitted := by
  unfold writerStep at h
  split at h
  · cases h
  · split at h
    · cases h
    · rename_i hq
      obtain rfl := Option.some.inj h
      simp [submitted, flush, hq]
    · rename_i hq
      obtain rfl := Option.some.inj h
      rw [submitted_afterPass]
      simp [submitted, hq]

theorem submitted_writerTimeout {s s' : ResultSink} {now : ℚ}
    (h : s.writerTimeout now = some s') : s'.submitted = s.submitted := by
  unfold writerTimeout at h
  split at h
  · obtain rfl := Option.some.inj h
    exact submitted_afterPass s now
  · cases h

end ResultSink

end BatchEngine.Core
