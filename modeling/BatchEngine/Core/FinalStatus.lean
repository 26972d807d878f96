import BatchEngine.Core.History

/-!
# The final status and the history

The status is derived from the two events, the boxes and the counters as the end of the
run finds them. It agrees with what has happened.
-/

set_option autoImplicit false

namespace BatchEngine.Core

open BatchEngine.Providers

variable {R : Type*} {J : JobRunner R}

/-- The status of a job that was neither cancelled nor aborted. -/
def countsStatus (counts : JobCounts) : JobStatus :=
  if counts.ingested = 0 then .succeeded
  else if counts.failed = 0 then .succeeded
  else if counts.succeeded = 0 then .failed
  else .partialResult

/-- The status and the reason that go with a history. -/
structure Final (record : JobRecord) (hist : History) : Prop where
  status : record.status =
    if hist.cancelled then .cancelled
    else if hist.causes ≠ [] then .failed
    else countsStatus record.counts
  abortReason : record.abortReason = hist.causes.head?

/-! ## Before the status is computed -/

theorem recount_worker_cancelled {s s' : State J.concurrency} {i : Fin J.concurrency}
    {input : WorkerInput R} {hist : History} :
    (recount J s (.worker i input) s' hist).cancelled = hist.cancelled := by
  cases input with
  | take => rfl
  | wake u => rfl
  | reply r u raises =>
    simp only [recount]
    cases s.workers i <;> rfl

/-- The status, once computed, is not taken back. -/
theorem stage_before {s s' : State J.concurrency} {a : Action R J.concurrency}
    (h : JobTurn J s a s') (hopen : s'.phase.stage = .unfinalized) :
    s.phase.stage = .unfinalized := by
  cases h with
  | tick _ => exact hopen
  | cancel => exact hopen
  | wrote _ => exact hopen
  | timedOut _ => exact hopen
  | worker _ _ => exact hopen
  | savedFinal _ => cases hopen
  | @delivered raises _ => cases raises <;> cases hopen
  | begun hphase => rw [hphase]; rfl
  | ended hphase _ => rw [hphase]; rfl
  | dropped hphase _ _ => rw [hphase]; rfl
  | ingested hphase _ => rw [hphase]; rfl
  | put hphase _ _ => rw [hphase]; rfl
  | saved hphase _ => rw [hphase]; rfl
  | closed hphase => rw [hphase]; rfl
  | sentinel hphase _ => rw [hphase]; rfl
  | gathering hphase => rw [hphase]; rfl
  | gathered hphase _ => rw [hphase]; rfl
  | reraised hphase => rw [hphase]; rfl
  | costRaised hphase _ => rw [hphase]; rfl
  | finalized hphase => rw [hphase]; rfl

theorem happens_cancelled {s : State J.concurrency} {hist : History} (h : Happens J s hist) :
    s.phase.stage = .unfinalized → s.ctx.cancelEvent = hist.cancelled := by
  refine h.invariant (I := fun s hist =>
    s.phase.stage = .unfinalized → s.ctx.cancelEvent = hist.cancelled) ?_ ?_
  · exact fun now wall _ => rfl
  · intro s a s' hist _ hs ht hopen
    have hbefore := stage_before (step_turn ht) hopen
    cases step_turn ht with
    | cancel =>
      simp only [recount, hbefore]
      rfl
    | worker _ hdoes =>
      rw [recount_worker_cancelled]
      exact hdoes.cancelEvent.trans (hs hbefore)
    | _ => exact hs hbefore

/-- The record names no reason before the status is computed. -/
theorem reachable_abortReason {s : State J.concurrency} (h : Reachable J s) :
    s.phase.stage = .unfinalized → s.ctx.record.abortReason = none := by
  refine h.invariant (I := fun s =>
    s.phase.stage = .unfinalized → s.ctx.record.abortReason = none) ?_ ?_
  · exact fun now wall _ => rfl
  · intro s a s' _ hs ht hopen
    have hbefore := stage_before ht hopen
    cases ht with
    | worker _ hdoes =>
      have hframe := settles_frame (fun record => record.abortReason)
        (fun _ row => by cases row <;> rfl)
      rw [hdoes.record]
      exact (hframe _ s.ctx.record).trans (hs hbefore)
    | finalized _ =>
      simp only at hopen
      split at hopen <;> cases hopen
    | _ => exact hs hbefore

/-! ## When it is computed, and after -/

theorem finalRecord_final {s : State J.concurrency} {hist : History} (h : Happens J s hist)
    (hopen : s.phase.stage = .unfinalized) : Final (finalRecord J s.ctx) hist := by
  have htell := happens_boxesTell h
  have hcancel := happens_cancelled h hopen
  have hreason := reachable_abortReason h.reachable hopen
  have hevent : s.ctx.abortEvent = true ↔ hist.causes ≠ [] := htell.event
  constructor
  · show finalStatus s.ctx = _
    simp only [finalStatus, hcancel, hevent]
    rfl
  · show (if s.ctx.abortEvent then s.ctx.abortReason.head?.or s.ctx.record.abortReason
      else s.ctx.record.abortReason) = _
    rw [hreason, Option.or_none]
    by_cases habort : s.ctx.abortEvent = true
    · rw [if_pos habort]
      exact htell.reason
    · rw [if_neg habort, not_not.mp (mt hevent.mpr habort)]
      rfl

/-- A finalised job has no more history. -/
theorem recount_finalised {s s' : State J.concurrency} {a : Action R J.concurrency} {hist : History}
    (hreach : Reachable J s) (h : JobTurn J s a s') (hfinal : s.phase.stage ≠ .unfinalized) :
    recount J s a s' hist = hist := by
  cases h with
  | cancel =>
    simp only [recount]
    cases hstage : s.phase.stage <;> first | exact absurd hstage hfinal | rfl
  | worker hturn _ => exact absurd (drained_of_stage hfinal) (worker_not_drained hreach hturn)
  | _ => rfl

theorem happens_final {s : State J.concurrency} {hist : History} (h : Happens J s hist) :
    s.phase.stage ≠ .unfinalized → Final s.ctx.record hist := by
  refine h.invariant (I := fun s hist =>
    s.phase.stage ≠ .unfinalized → Final s.ctx.record hist) ?_ ?_
  · exact fun now wall hfinal => absurd rfl hfinal
  · intro s a s' hist hreach hs ht hfinal
    by_cases hopen : s.phase.stage = .unfinalized
    · cases step_turn ht with
      | finalized _ => exact finalRecord_final hreach hopen
      | savedFinal hphase =>
        rw [hphase] at hopen
        cases hopen
      | delivered hphase =>
        rw [hphase] at hopen
        cases hopen
      | put _ _ hnext => rcases hnext with rfl | rfl | rfl <;> exact absurd rfl hfinal
      | saved _ hnext => rcases hnext with rfl | rfl <;> exact absurd rfl hfinal
      | reraised hphase =>
        have hheld := reachable_held hreach.reachable (by rw [hphase]; exact fun e => nofun)
        rw [hphase] at hheld
        rcases hheld with hexc | hexc <;> cases hexc
        exact absurd rfl hfinal
      | tick _ => exact absurd hopen hfinal
      | cancel => exact absurd hopen hfinal
      | wrote _ => exact absurd hopen hfinal
      | timedOut _ => exact absurd hopen hfinal
      | worker _ _ => exact absurd hopen hfinal
      | _ => exact absurd rfl hfinal
    · rw [recount_finalised hreach.reachable (step_turn ht) hopen]
      cases step_stage hreach.reachable (step_turn ht) with
      | rests _ hrecord _ =>
        rw [hrecord]
        exact hs hopen
      | works hstage _ _ _ _ => exact absurd hstage hopen
      | finalizes hstage _ _ _ => exact absurd hstage hopen
      | saves _ _ hrecord _ =>
        rw [hrecord]
        exact hs hopen

/-! ## The law -/

/-- No row comes from nothing. -/
theorem reachable_nothing {s : State J.concurrency} (h : Reachable J s) :
    s.ctx.record.counts.ingested = 0 → s.ctx.sink.submitted = [] ∧ unresolved s = 0 := by
  refine h.invariant (I := fun s =>
    s.ctx.record.counts.ingested = 0 → s.ctx.sink.submitted = [] ∧ unresolved s = 0) ?_ ?_
  · exact fun now wall _ => ⟨rfl, unresolved_start J now wall⟩
  · intro s a s' _ hs ht hnone
    cases step_custody ht with
    | settled hsettles hsubmitted hunresolved hingested =>
      obtain ⟨hrows, hempty⟩ := hs (hingested ▸ hnone)
      rw [hempty] at hunresolved
      have hcard := congrArg Multiset.card hunresolved
      rw [Multiset.card_zero, Multiset.card_add] at hcard
      have hrest : unresolved s' = 0 := Multiset.card_eq_zero.mp (by omega)
      rw [hsubmitted, hrows]
      generalize a.raisesInCheck = raises at hsettles
      cases hsettles with
      | keeps => exact ⟨rfl, hrest⟩
      | once _ =>
        rw [Multiset.card_singleton] at hcard
        omega
      | twice _ _ =>
        rw [Multiset.card_singleton] at hcard
        omega
    | admitted _ _ _ _ _ hingested =>
      rw [hingested] at hnone
      cases hnone

/-- The counters of a drained job: rows for every ingested entry, and none without. -/
theorem drained_rows {s : State J.concurrency} (h : Reachable J s) (hd : s.phase.Drained) :
    s.ctx.record.counts.ingested ≤ s.ctx.record.counts.succeeded + s.ctx.record.counts.failed ∧
      (s.ctx.record.counts.ingested = 0 →
        s.ctx.record.counts.succeeded = 0 ∧ s.ctx.record.counts.failed = 0) := by
  have htally := reachable_tallied h
  have hsucceeded := htally.succeeded
  have hfailed := htally.failed
  have hpending := htally.pending
  have hle := reachable_pending_le h
  rw [(drained_empty h hd).2, Multiset.card_zero] at hle
  refine ⟨by omega, fun hnone => ?_⟩
  rw [(reachable_nothing h hnone).1, List.countP_nil] at hsucceeded hfailed
  exact ⟨hsucceeded, hfailed⟩

/-- A job whose status has been computed: it is cancelled exactly if cancel was requested
before that; otherwise an abort cause makes it failed, for the first of the causes; and
otherwise the counters decide. -/
theorem status_follows_history {s : State J.concurrency} {hist : History} (h : Happens J s hist)
    (hfinal : s.phase.stage ≠ .unfinalized) :
    (s.ctx.record.status = .cancelled ↔ hist.cancelled = true) ∧
    (hist.cancelled = false → hist.causes ≠ [] →
      s.ctx.record.status = .failed ∧ s.ctx.record.abortReason = hist.causes.head?) ∧
    (hist.cancelled = false → hist.causes = [] →
      s.ctx.record.abortReason = none ∧
      (s.ctx.record.status = .succeeded ↔ s.ctx.record.counts.failed = 0) ∧
      (s.ctx.record.status = .failed ↔
        0 < s.ctx.record.counts.ingested ∧ s.ctx.record.counts.succeeded = 0) ∧
      (s.ctx.record.status = .partialResult ↔
        0 < s.ctx.record.counts.failed ∧ 0 < s.ctx.record.counts.succeeded)) := by
  obtain ⟨hstatus, hreason⟩ := happens_final h hfinal
  obtain ⟨hrows, hnothing⟩ := drained_rows h.reachable (drained_of_stage hfinal)
  refine ⟨?_, fun hcancel hcauses => ?_, fun hcancel hcauses => ?_⟩
  · rw [hstatus]
    cases hist.cancelled with
    | true => exact iff_of_true rfl rfl
    | false =>
      refine iff_of_false ?_ Bool.false_ne_true
      rw [if_neg Bool.false_ne_true]
      unfold countsStatus
      repeat' split
      all_goals exact nofun
  · rw [hstatus, hcancel, if_neg Bool.false_ne_true, if_pos hcauses]
    exact ⟨rfl, hreason⟩
  · rw [hstatus, hcancel, if_neg Bool.false_ne_true, if_neg (not_not.mpr hcauses), hreason, hcauses]
    refine ⟨rfl, ?_⟩
    unfold countsStatus
    split
    · rename_i hzero
      obtain ⟨hsucceeded, hfailed⟩ := hnothing hzero
      simp [hzero, hsucceeded, hfailed]
    · split
      · rename_i hzero hfailed
        have hpos : s.ctx.record.counts.succeeded ≠ 0 := by omega
        simp [hfailed, hpos]
      · split
        · rename_i hzero hfailed hsucceeded
          simp [hfailed, hsucceeded, Nat.pos_of_ne_zero hzero]
        · rename_i hzero hfailed hsucceeded
          simp [hfailed, hsucceeded, Nat.pos_of_ne_zero]

/-- The prompt of `twoRows` is answered with a 401. -/
def refusedRun : List (Action CallResult 2) :=
  List.replicate 5 (.runner false) ++
  [.nth 0 .take, .nth 1 .take, .nth 0 (.reply (.returned { statusCode := 401 }) 0 false)] ++
  List.replicate 5 (.runner false) ++ [.nth 0 .take, .nth 1 .take, .runner false] ++
  [.writer, .writer, .writer, .runner false]

def refusedEnd : State 2 × History :=
  (Runs.exec (recountedStep twoRows) (twoRows.start 0 0, {}) refusedRun).get (by decide +kernel)

theorem status_follows_history_refused : refusedEnd.1.ctx.record.status = .failed ∧
    refusedEnd.1.ctx.record.abortReason = some (.fatal .fatalAuth (some 401)) := by
  have happens : Happens twoRows refusedEnd.1 refusedEnd.2 :=
    ⟨0, 0, refusedRun, (Option.some_get _).symm⟩
  have hstage : refusedEnd.1.phase = .savingFinal := by decide +kernel
  have hcancelled : refusedEnd.2.cancelled = false := by decide +kernel
  have hcauses : refusedEnd.2.causes = [.fatal .fatalAuth (some 401)] := by decide +kernel
  have hfinal : refusedEnd.1.phase.stage ≠ .unfinalized := by
    rw [hstage]
    exact nofun
  have haborted := (status_follows_history happens hfinal).2.1 hcancelled (hcauses ▸ nofun)
  rw [hcauses] at haborted
  exact haborted

end BatchEngine.Core
