import BatchEngine.Core.Durability

/-!
# How long a written row stays unflushed

The writer beside a clock. Its timer fires on time and its file operations take none: time
stands still while the writer has something to do, and does not pass the end of its wait.
The age that the writer tests is that of the last flush, and every row restarts its wait,
so an unflushed row that is followed by another can wait for longer than the two seconds.
-/

set_option autoImplicit false

namespace BatchEngine.Core

/-- The sink at a time. `writes` are the times at which the rows of its file were written. -/
structure SinkClock where
  now : ℚ
  sink : ResultSink
  writes : List ℚ := []
  deriving DecidableEq, Repr

inductive SinkAction where
  | elapse (dt : ℚ)
  | submit (row : Row)
  | close
  | writer
  | writerTimeout
  deriving DecidableEq, Repr

namespace SinkClock

def start (now : ℚ) : SinkClock := { now, sink := .start now }

/-- Time can pass by `dt` with nothing for the writer to do. -/
def MayElapse (s : SinkClock) (dt : ℚ) : Prop :=
  0 ≤ dt ∧ (s.sink.done = true ∨
    s.sink.queue = [] ∧ s.now + dt ≤ s.sink.waitingSince + flushEverySeconds)

instance (s : SinkClock) (dt : ℚ) : Decidable (s.MayElapse dt) :=
  inferInstanceAs (Decidable (_ ∧ (_ ∨ _ ∧ _)))

def step (s : SinkClock) : SinkAction → Option SinkClock
  | .elapse dt => if s.MayElapse dt then some { s with now := s.now + dt } else none
  | .submit row => some { s with sink := s.sink.submit row }
  | .close => some { s with sink := s.sink.close }
  | .writer => (s.sink.writerStep s.now).map fun sink =>
    let written := sink.file.length - s.sink.file.length
    { s with sink, writes := s.writes ++ List.replicate written s.now }
  | .writerTimeout => (s.sink.writerTimeout s.now).map fun sink => { s with sink }

/-- When the rows that no flush has covered were written. -/
def unfsynced (s : SinkClock) : List ℚ := s.writes.drop s.sink.fsynced

/-- No written row is older than two seconds without a flush, and there are fewer than 100
such rows. -/
def Current (s : SinkClock) : Prop :=
  (∀ t ∈ s.unfsynced, s.now ≤ t + flushEverySeconds) ∧
    s.sink.file.length - s.sink.fsynced < flushEveryRows

instance (s : SinkClock) : Decidable s.Current := inferInstanceAs (Decidable (_ ∧ _))

def KeepsCurrent (s : SinkClock) (a : SinkAction) : Prop := ∀ s', s.step a = some s' → s'.Current

/-- While an unflushed row is followed by a later one, time does not pass the two seconds of
the earlier: the next row or the close comes before. -/
def NextInTime (s : SinkClock) (a : SinkAction) : Prop :=
  ∀ dt, a = .elapse dt → s.MayElapse dt → ∀ t ∈ s.unfsynced, ∀ t' ∈ s.unfsynced, t < t' →
    s.now + dt ≤ t + flushEverySeconds

/-! ## The passes of the writer -/

/-- A pass flushes, or the window is not full and not old. -/
theorem afterPass_cases (sink : ResultSink) (now : ℚ) :
    sink.afterPass now =
        { sink.flush with unflushed := 0, lastFlush := now, waitingSince := now } ∨
      sink.afterPass now = { sink with waitingSince := now } ∧ sink.unflushed < flushEveryRows ∧
        (0 < sink.unflushed → now - sink.lastFlush < flushEverySeconds) := by
  unfold ResultSink.afterPass
  split
  · exact Or.inl rfl
  · rename_i hopen
    refine Or.inr ⟨rfl, ?_, fun hpos => ?_⟩
    · by_contra hfull
      exact hopen (Or.inl (Nat.not_lt.mp hfull))
    · by_contra hold
      exact hopen (Or.inr ⟨hpos, not_lt.mp hold⟩)

theorem writerStep_cases {sink sink' : ResultSink} {now : ℚ}
    (h : sink.writerStep now = some sink') : sink.done = false ∧
      ((∃ rest, sink.queue = none :: rest ∧
          sink' = { sink.flush with queue := rest, done := true }) ∨
        ∃ row rest, sink.queue = some row :: rest ∧
          sink' = ResultSink.afterPass { sink with
            queue := rest, file := sink.file ++ [row], unflushed := sink.unflushed + 1 } now) := by
  unfold ResultSink.writerStep at h
  split at h
  · cases h
  · rename_i hdone
    refine ⟨Bool.not_eq_true _ ▸ hdone, ?_⟩
    split at h
    · cases h
    · rename_i rest hqueue
      exact Or.inl ⟨rest, hqueue, (Option.some.inj h).symm⟩
    · rename_i row rest hqueue
      exact Or.inr ⟨row, rest, hqueue, (Option.some.inj h).symm⟩

theorem writerTimeout_cases {sink sink' : ResultSink} {now : ℚ}
    (h : sink.writerTimeout now = some sink') : sink.done = false ∧
      flushEverySeconds ≤ now - sink.waitingSince ∧ sink' = sink.afterPass now := by
  unfold ResultSink.writerTimeout at h
  split at h
  · rename_i hwait
    exact ⟨Bool.not_eq_true _ ▸ hwait.1, hwait.2.2, (Option.some.inj h).symm⟩
  · cases h

/-- What holds whenever the writer waits: its wait began with the youngest unflushed row. -/
structure Paced (s : SinkClock) : Prop where
  flushed : Flushed s.sink
  times : s.writes.length = s.sink.file.length
  few : s.sink.done = false → s.sink.unflushed < flushEveryRows
  closed : s.sink.done = true → s.sink.fsynced = s.sink.file.length
  flushedBefore : s.sink.lastFlush ≤ s.sink.waitingSince
  waits : s.sink.waitingSince ≤ s.now
  youngest : s.sink.done = false → 0 < s.sink.unflushed → s.sink.waitingSince ∈ s.unfsynced
  past : ∀ t ∈ s.unfsynced, t ≤ s.sink.waitingSince

/-- What holds when the writer has written, before it decides on a flush. -/
structure Written (s : SinkClock) : Prop where
  flushed : Flushed s.sink
  times : s.writes.length = s.sink.file.length
  opened : s.sink.done = false
  flushedBefore : s.sink.lastFlush ≤ s.now
  fresh : 0 < s.sink.unflushed →
    s.now ∈ s.unfsynced ∨ flushEverySeconds ≤ s.now - s.sink.lastFlush
  past : ∀ t ∈ s.unfsynced, t ≤ s.now

theorem unfsynced_of_flushed {s : SinkClock} (htimes : s.writes.length = s.sink.file.length)
    (h : s.sink.fsynced = s.sink.file.length) : s.unfsynced = [] := by
  rw [unfsynced, h, ← htimes]
  exact List.drop_length

/-- The end of a pass. -/
theorem Written.afterPass {s : SinkClock} (h : Written s) :
    Paced { s with sink := s.sink.afterPass s.now } ∧
      ∀ t ∈ unfsynced { s with sink := s.sink.afterPass s.now }, t ∈ s.unfsynced := by
  have hflushed := (h.flushed.afterPass s.now).1
  rcases afterPass_cases s.sink s.now with hflush | ⟨hwait, hfew, hyoung⟩
  · rw [hflush] at hflushed ⊢
    have hnone : unfsynced { s with sink := { s.sink.flush with
        unflushed := 0, lastFlush := s.now, waitingSince := s.now } } = [] :=
      unfsynced_of_flushed h.times rfl
    rw [hnone]
    refine ⟨⟨hflushed, h.times, fun _ => Nat.zero_lt_succ 99, fun _ => rfl, le_refl _, le_refl _,
      ?_, ?_⟩, ?_⟩
    · exact fun _ hpos => absurd hpos (Nat.lt_irrefl 0)
    · rw [hnone]
      exact fun t ht => absurd ht List.not_mem_nil
    · exact fun t ht => absurd ht List.not_mem_nil
  · rw [hwait] at hflushed ⊢
    refine ⟨⟨hflushed, h.times, fun _ => hfew, ?_, h.flushedBefore, le_refl _, ?_, h.past⟩,
      fun t ht => ht⟩
    · intro hdone
      exact absurd (h.opened.symm.trans hdone) Bool.false_ne_true
    · intro _ hpos
      rcases h.fresh hpos with hnow | hold
      · exact hnow
      · exact absurd (hyoung hpos) (not_lt.mpr hold)

/-! ## One step -/

theorem afterPass_file (sink : ResultSink) (now : ℚ) : (sink.afterPass now).file = sink.file := by
  rcases afterPass_cases sink now with h | ⟨h, -, -⟩
  · rw [h]
    rfl
  · rw [h]

/-- A step of the writer writes a row and ends its pass, or sees the mark and is done. -/
theorem writer_cases {s s' : SinkClock} (h : s.step .writer = some s') :
    s.sink.done = false ∧
      ((∃ rest, s' = { s with sink := { s.sink.flush with queue := rest, done := true } }) ∨
        ∃ row rest sink, sink = { s.sink with
            queue := rest, file := s.sink.file ++ [row], unflushed := s.sink.unflushed + 1 } ∧
          s' = { s with sink := sink.afterPass s.now, writes := s.writes ++ [s.now] }) := by
  obtain ⟨sink, hsink, rfl⟩ := Option.map_eq_some_iff.mp h
  obtain ⟨hopen, ⟨rest, -, rfl⟩ | ⟨row, rest, -, rfl⟩⟩ := writerStep_cases hsink
  · refine ⟨hopen, Or.inl ⟨rest, ?_⟩⟩
    simp [ResultSink.flush]
  · refine ⟨hopen, Or.inr ⟨row, rest, _, rfl, ?_⟩⟩
    rw [afterPass_file]
    simp

/-- The writer that has seen the mark has flushed everything. -/
theorem Paced.done {s : SinkClock} (h : Paced s) (rest : List (Option Row)) :
    Paced { s with sink := { s.sink.flush with queue := rest, done := true } } := by
  have hnone :
      unfsynced { s with sink := { s.sink.flush with queue := rest, done := true } } = [] :=
    unfsynced_of_flushed h.times rfl
  refine ⟨⟨Nat.le_refl _, fun hdone => ?_⟩, h.times, fun hdone => ?_, fun _ => rfl,
    h.flushedBefore, h.waits, fun hdone => ?_, fun t ht => ?_⟩
  · cases hdone
  · cases hdone
  · cases hdone
  · rw [hnone] at ht
    exact absurd ht List.not_mem_nil

/-- A row that has just been written is the youngest. -/
theorem Paced.written {s : SinkClock} (h : Paced s) (hopen : s.sink.done = false) (row : Row)
    (rest : List (Option Row)) :
    Written { s with
      sink := { s.sink with
        queue := rest, file := s.sink.file ++ [row], unflushed := s.sink.unflushed + 1 }
      writes := s.writes ++ [s.now] } ∧
    unfsynced { s with
      sink := { s.sink with
        queue := rest, file := s.sink.file ++ [row], unflushed := s.sink.unflushed + 1 }
      writes := s.writes ++ [s.now] } = s.unfsynced ++ [s.now] := by
  have happend : (s.writes ++ [s.now]).drop s.sink.fsynced = s.unfsynced ++ [s.now] :=
    List.drop_append_of_le_length (h.times ▸ h.flushed.ahead)
  have hlength : (s.sink.file ++ [row]).length = s.sink.file.length + 1 := List.length_append
  refine ⟨⟨⟨?_, fun _ => ?_⟩, ?_, hopen, h.flushedBefore.trans h.waits, fun _ => Or.inl ?_, ?_⟩,
    happend⟩
  · show s.sink.fsynced ≤ (s.sink.file ++ [row]).length
    rw [hlength]
    exact Nat.le_succ_of_le h.flushed.ahead
  · show s.sink.fsynced + (s.sink.unflushed + 1) = (s.sink.file ++ [row]).length
    rw [hlength, ← h.flushed.window hopen, Nat.add_assoc]
  · show (s.writes ++ [s.now]).length = (s.sink.file ++ [row]).length
    rw [hlength, ← h.times, List.length_append, List.length_singleton]
  · show s.now ∈ (s.writes ++ [s.now]).drop s.sink.fsynced
    rw [happend]
    exact List.mem_append_right _ (List.mem_singleton_self _)
  · show ∀ t ∈ (s.writes ++ [s.now]).drop s.sink.fsynced, t ≤ s.now
    rw [happend]
    intro t ht
    rcases List.mem_append.mp ht with hold | hnew
    · exact (h.past t hold).trans h.waits
    · exact (List.mem_singleton.mp hnew).le

theorem Paced.queued {s : SinkClock} (h : Paced s) (queue : List (Option Row)) :
    Paced { s with sink := { s.sink with queue } } :=
  ⟨⟨h.flushed.ahead, h.flushed.window⟩, h.times, h.few, h.closed, h.flushedBefore, h.waits,
    h.youngest, h.past⟩

/-- A wait that times out ends in a flush, unless there is nothing to flush. -/
theorem Paced.timedOut {s : SinkClock} (h : Paced s) (hopen : s.sink.done = false)
    (hwait : flushEverySeconds ≤ s.now - s.sink.waitingSince) : Written s where
  flushed := h.flushed
  times := h.times
  opened := hopen
  flushedBefore := h.flushedBefore.trans h.waits
  fresh _ := Or.inr (hwait.trans (sub_le_sub_left h.flushedBefore _))
  past t ht := (h.past t ht).trans h.waits

/-- What a step that does not let time pass leaves unflushed is a row of before, or new. -/
structure Adds (s s' : SinkClock) : Prop where
  paced : Paced s'
  now : s'.now = s.now
  rows : ∀ t ∈ s'.unfsynced, t ∈ s.unfsynced ∨ t = s.now

theorem step_adds {s s' : SinkClock} {a : SinkAction} (h : Paced s) (hs : s.step a = some s')
    (helapse : ∀ dt, a ≠ .elapse dt) : Adds s s' := by
  cases a with
  | elapse dt => exact absurd rfl (helapse dt)
  | submit row =>
    obtain rfl := Option.some.inj hs
    exact ⟨h.queued _, rfl, fun _ => Or.inl⟩
  | close =>
    obtain rfl := Option.some.inj hs
    exact ⟨h.queued _, rfl, fun _ => Or.inl⟩
  | writer =>
    obtain ⟨hopen, ⟨rest, rfl⟩ | ⟨row, rest, sink, rfl, rfl⟩⟩ := writer_cases hs
    · have hpaced := h.done rest
      refine ⟨hpaced, rfl, fun t ht => ?_⟩
      rw [unfsynced_of_flushed hpaced.times (hpaced.closed rfl)] at ht
      exact absurd ht List.not_mem_nil
    · obtain ⟨hwritten, hrows⟩ := h.written hopen row rest
      obtain ⟨hpaced, hsub⟩ := hwritten.afterPass
      refine ⟨hpaced, rfl, fun t ht => ?_⟩
      have hmem := hsub t ht
      rw [hrows] at hmem
      exact (List.mem_append.mp hmem).imp_right List.mem_singleton.mp
  | writerTimeout =>
    obtain ⟨sink, hsink, rfl⟩ := Option.map_eq_some_iff.mp hs
    obtain ⟨hopen, hwait, rfl⟩ := writerTimeout_cases hsink
    obtain ⟨hpaced, hsub⟩ := (h.timedOut hopen hwait).afterPass
    exact ⟨hpaced, rfl, fun t ht => Or.inl (hsub t ht)⟩

theorem step_elapse {s s' : SinkClock} {dt : ℚ} (hs : s.step (.elapse dt) = some s') :
    s.MayElapse dt ∧ s' = { s with now := s.now + dt } := by
  simp only [step] at hs
  split at hs
  · exact ⟨‹_›, (Option.some.inj hs).symm⟩
  · cases hs

theorem step_paced {s s' : SinkClock} {a : SinkAction} (h : Paced s) (hs : s.step a = some s') :
    Paced s' := by
  by_cases helapse : ∃ dt, a = .elapse dt
  · obtain ⟨dt, rfl⟩ := helapse
    obtain ⟨hmay, rfl⟩ := step_elapse hs
    have hlater : s.now ≤ s.now + dt := le_add_of_nonneg_right hmay.1
    exact ⟨h.flushed, h.times, h.few, h.closed, h.flushedBefore, h.waits.trans hlater,
      h.youngest, h.past⟩
  · exact (step_adds h hs fun dt hdt => helapse ⟨dt, hdt⟩).paced

/-- There are never 100 rows without a flush between two passes. -/
theorem Paced.few_unfsynced {s : SinkClock} (h : Paced s) :
    s.sink.file.length - s.sink.fsynced < flushEveryRows := by
  cases hdone : s.sink.done with
  | true =>
    rw [h.closed hdone, Nat.sub_self]
    exact Nat.zero_lt_succ 99
  | false =>
    rw [← h.flushed.window hdone, Nat.add_sub_cancel_left]
    exact h.few hdone

/-! ## The law -/

theorem paced_start (now : ℚ) : Paced (start now) where
  flushed := ⟨Nat.le_refl _, fun _ => rfl⟩
  times := rfl
  few _ := Nat.zero_lt_succ 99
  closed hdone := by cases hdone
  flushedBefore := le_refl _
  waits := le_refl _
  youngest _ hpos := absurd hpos (Nat.lt_irrefl 0)
  past _ ht := absurd ht List.not_mem_nil

theorem current_start (now : ℚ) : (start now).Current :=
  ⟨fun _ ht => absurd ht List.not_mem_nil, Nat.zero_lt_succ 99⟩

/-- A row that the writer waits behind is current until the wait ends. -/
theorem current_elapse {s : SinkClock} {dt : ℚ} (h : Paced s) (hmay : s.MayElapse dt)
    (hnext : s.NextInTime (.elapse dt)) : Current { s with now := s.now + dt } := by
  refine ⟨fun t ht => ?_, h.few_unfsynced⟩
  change t ∈ s.unfsynced at ht
  show s.now + dt ≤ t + flushEverySeconds
  cases hdone : s.sink.done with
  | true =>
    rw [unfsynced_of_flushed h.times (h.closed hdone)] at ht
    exact absurd ht List.not_mem_nil
  | false =>
    have hwait : s.now + dt ≤ s.sink.waitingSince + flushEverySeconds := by
      rcases hmay.2 with hclosed | ⟨-, hwait⟩
      · exact absurd (hdone.symm.trans hclosed) Bool.false_ne_true
      · exact hwait
    have hpos : 0 < s.sink.unflushed := by
      have hlength := List.length_pos_of_mem ht
      have hwindow := h.flushed.window hdone
      rw [unfsynced, List.length_drop, h.times] at hlength
      omega
    rcases (h.past t ht).lt_or_eq with hearlier | hyoungest
    · exact hnext dt rfl hmay t ht _ (h.youngest hdone hpos) hearlier
    · rw [hyoungest]
      exact hwait

theorem step_current {s s' : SinkClock} {a : SinkAction} (h : Paced s) (hcurrent : s.Current)
    (hnext : s.NextInTime a) (hs : s.step a = some s') : s'.Current := by
  by_cases helapse : ∃ dt, a = .elapse dt
  · obtain ⟨dt, rfl⟩ := helapse
    obtain ⟨hmay, rfl⟩ := step_elapse hs
    exact current_elapse h hmay hnext
  · have hadds := step_adds h hs fun dt hdt => helapse ⟨dt, hdt⟩
    refine ⟨fun t ht => ?_, hadds.paced.few_unfsynced⟩
    rw [hadds.now]
    rcases hadds.rows t ht with hold | rfl
    · exact hcurrent.1 t hold
    · exact le_add_of_nonneg_right (by decide)

/-- The rows are flushed within two seconds in every state of a run exactly if, while an
unflushed row is followed by a later one, the next row comes within the two seconds of the
earlier. -/
theorem flushed_in_time_iff (now : ℚ) (actions : List SinkAction) :
    Runs.Along step KeepsCurrent (start now) actions ↔
      Runs.Along step NextInTime (start now) actions := by
  constructor
  · refine Runs.Along.of_invariant (I := Paced) (fun s a t hs _ ht => step_paced hs ht) ?_
      (paced_start now)
    rintro s a hs hkeeps dt rfl hmay t ht - - -
    have hlater : s.step (.elapse dt) = some { s with now := s.now + dt } := if_pos hmay
    exact (hkeeps _ hlater).1 t ht
  · refine Runs.Along.of_invariant (I := fun s => Paced s ∧ s.Current) ?_ ?_
      ⟨paced_start now, current_start now⟩
    · exact fun s a t hs hnext ht => ⟨step_paced hs.1 ht, step_current hs.1 hs.2 hnext ht⟩
    · exact fun s a hs hnext t ht => step_current hs.1 hs.2 hnext ht

def lateRow : Row := .error ⟨"bad", .invalidInput, .ingest "malformed JSON line", 1, none⟩

/-- A row at 0.1 and a row at 1.9, and then none. -/
def sparseRows : List SinkAction :=
  [.elapse (1 / 10), .submit lateRow, .writer, .elapse (9 / 5), .submit lateRow, .writer, .elapse 2]

/-- At 3.9 the row of 0.1 is still waiting for its flush. -/
theorem sparseRows_late : ∃ s, Runs.exec step (start 0) sparseRows = some s ∧ s.now = 39 / 10 ∧
    1 / 10 ∈ s.unfsynced ∧ ¬ s.Current :=
  ⟨(Runs.exec step (start 0) sparseRows).get (by decide +kernel), (Option.some_get _).symm,
    by decide +kernel, by decide +kernel, by decide +kernel⟩

end SinkClock

end BatchEngine.Core
