import BatchEngine.Api.Visible
import BatchEngine.Core.BatchFile
import BatchEngine.Core.FinalStatus
import BatchEngine.Core.ItemCap

/-!
# From the batch file to the download

A job that reports `succeeded` or `partial_result` has read its whole input. So each prompt
of the batch file has its row, and the download has these rows and no others.
-/

set_option autoImplicit false

namespace BatchEngine.Api

open BatchEngine.Core BatchEngine.Providers Py

variable {R : Type*} {J : JobRunner R}

/-! ## The whole input -/

/-- The status of a run that nothing has stopped. -/
def Unhindered (record : JobRecord) : Prop :=
  record.status = .succeeded ∨ record.status = .partialResult

theorem unhindered_final {ctx : WorkerContext} (h : Unhindered (finalRecord J ctx)) :
    ¬ Stopped ctx := by
  change finalStatus ctx = .succeeded ∨ finalStatus ctx = .partialResult at h
  unfold finalStatus at h
  rintro (hcancel | habort)
  · rw [if_pos hcancel] at h
    rcases h with h | h <;> cases h
  · by_cases hcancel : ctx.cancelEvent = true
    · rw [if_pos hcancel] at h
      rcases h with h | h <;> cases h
    · rw [if_neg hcancel, if_pos habort] at h
      rcases h with h | h <;> cases h

/-- The entries that are counted and not queued yet. -/
def RunPhase.inHand : RunPhase → ℕ
  | .putting _ => 1
  | _ => 0

/-- The account of a run, with what it has queued. -/
structure Accounted (J : JobRunner R) (p : State J.concurrency × List Entry) : Prop where
  reach : Reachable J p.1
  progress : Progress J p.1 p.2
  ingested : p.1.ctx.record.counts.ingested = p.2.length + RunPhase.inHand p.1.phase
  whole : p.1.phase.stage ≠ .unfinalized → Unhindered p.1.ctx.record →
    p.1.ctx.record.counts.ingested = (firstEntries J.config.maxItems J.input.entries).length

theorem step_ingested {s s' : State J.concurrency} {a : Action R J.concurrency}
    {entries : List Entry} (h : JobTurn J s a s')
    (hs : s.ctx.record.counts.ingested = entries.length + RunPhase.inHand s.phase) :
    s'.ctx.record.counts.ingested =
      (dispatched s a s' entries).length + RunPhase.inHand s'.phase := by
  have hkeeps : ∀ {raises}, (∀ t, s.phase ≠ .putting t) →
      (dispatched s (.runner raises : Action R J.concurrency) s' entries).length =
        s.ctx.record.counts.ingested := by
    intro raises hput
    rw [dispatched_of_not_putting hput, hs]
    cases hphase : s.phase with
    | putting t => exact absurd hphase (hput t)
    | _ => rfl
  cases h with
  | tick _ => exact hs
  | cancel => exact hs
  | wrote _ => exact hs
  | timedOut _ => exact hs
  | worker _ hdoes =>
    rw [hdoes.record]
    exact (settles_ingested _ _).trans hs
  | @put t q next hphase _ hnext =>
    have hput : dispatched s (.runner false : Action R J.concurrency)
        { s with ctx.queue := q, phase := next } entries = entries ++ [t.entry] := by
      simp only [dispatched, hphase]
    rw [hphase] at hs
    rw [hput, List.length_append]
    rcases hnext with rfl | rfl | rfl <;> exact hs
  | ingested hphase _ =>
    rw [hkeeps fun t ht => by rw [hphase] at ht; cases ht]
    rfl
  | saved hphase hnext =>
    rw [hkeeps fun t ht => by rw [hphase] at ht; cases ht]
    rcases hnext with rfl | rfl <;> rfl
  | finalized hphase =>
    rw [hkeeps fun t ht => by rw [hphase] at ht; cases ht]
    show s.ctx.record.counts.ingested = _
    split <;> rfl
  | @delivered raises hphase =>
    rw [hkeeps fun t ht => by rw [hphase] at ht; cases ht]
    rfl
  | begun hphase | ended hphase _ | dropped hphase _ _ | closed hphase | sentinel hphase _
  | gathering hphase | gathered hphase _ | reraised hphase | costRaised hphase _
  | savedFinal hphase =>
    rw [hkeeps fun t ht => by rw [hphase] at ht; cases ht]
    rfl

/-- The status is computed when the sink has closed. -/
theorem finalizes_from {s s' : State J.concurrency} {a : Action R J.concurrency}
    (hreach : Reachable J s) (h : JobTurn J s a s') (hopen : s.phase.stage = .unfinalized)
    (hfinal : s'.phase.stage ≠ .unfinalized) : s.phase = .closingSink none := by
  cases h with
  | finalized hphase => exact hphase
  | savedFinal hphase =>
    rw [hphase] at hopen
    cases hopen
  | delivered hphase =>
    rw [hphase] at hopen
    cases hopen
  | put _ _ hnext => rcases hnext with rfl | rfl | rfl <;> exact absurd rfl hfinal
  | saved _ hnext => rcases hnext with rfl | rfl <;> exact absurd rfl hfinal
  | reraised hphase =>
    have hheld := reachable_held hreach (by rw [hphase]; exact fun e => nofun)
    rw [hphase] at hheld
    rcases hheld with hexc | hexc <;> cases hexc
    exact absurd rfl hfinal
  | tick _ | cancel | wrote _ | timedOut _ | worker _ _ => exact absurd hopen hfinal
  | _ => exact absurd rfl hfinal

theorem step_accounted {p q : State J.concurrency × List Entry} {a : Action R J.concurrency}
    (hp : Accounted J p) (h : Runs.withHistory (step J) dispatched p a = some q) :
    Accounted J q := by
  obtain ⟨hstep, hhist⟩ := Runs.withHistory_some.mp h
  refine ⟨hp.reach.step hstep, hhist ▸ progress_step hp.progress hstep,
    hhist ▸ step_ingested (step_turn hstep) hp.ingested, fun hfinal hstatus => ?_⟩
  cases step_stage hp.reach (step_turn hstep) with
  | rests hstage hrecord _ =>
    rw [hrecord] at hstatus ⊢
    exact hp.whole (hstage ▸ hfinal) hstatus
  | works _ hstage' _ _ _ => exact absurd hstage' hfinal
  | finalizes hstage _ hrecord _ =>
    rw [hrecord] at hstatus ⊢
    have hphase := finalizes_from hp.reach (step_turn hstep) hstage hfinal
    have hprogress := hp.progress
    have hingested := hp.ingested
    unfold Progress at hprogress
    rw [hphase] at hprogress hingested
    rw [← hprogress.resolve_left (unhindered_final hstatus)]
    exact hingested
  | saves hstage _ hrecord _ =>
    rw [hrecord] at hstatus ⊢
    refine hp.whole (fun hopen => ?_) hstatus
    rw [hstage] at hopen
    cases hopen

/-- A job with such a status has ingested every entry that the cap admits. -/
theorem whole_input {s : State J.concurrency} (h : Reachable J s)
    (hfinal : s.phase.stage ≠ .unfinalized) (hstatus : Unhindered s.ctx.record) :
    s.ctx.record.counts.ingested = (firstEntries J.config.maxItems J.input.entries).length := by
  obtain ⟨now, wall, actions, hrun⟩ := h
  have hqueued : ∃ entries, Runs.exec (Runs.withHistory (step J) dispatched)
      (J.start now wall, []) actions = some (s, entries) := Runs.exec_withHistory [] hrun
  obtain ⟨entries, hqueued⟩ := hqueued
  have hstart : Accounted J (J.start now wall, []) :=
    ⟨reachable_start J now wall, ⟨rfl, rfl, room_nil _⟩, rfl, fun hfinal => absurd rfl hfinal⟩
  exact (Runs.exec_invariant' (I := Accounted J) (fun _ _ _ => step_accounted) hstart
    hqueued).whole hfinal hstatus

/-- A job that succeeded has no failed row. -/
theorem none_failed {s : State J.concurrency} (h : Reachable J s)
    (hfinal : s.phase.stage ≠ .unfinalized) (hstatus : s.ctx.record.status = .succeeded) :
    s.ctx.record.counts.failed = 0 := by
  obtain ⟨now, wall, actions, hrun⟩ := h
  have hcounted : ∃ hist, Runs.exec (recountedStep J) (J.start now wall, {}) actions =
      some (s, hist) := Runs.exec_withHistory ({} : History) hrun
  obtain ⟨hist, hcounted⟩ := hcounted
  have happens : Happens J s hist := ⟨now, wall, actions, hcounted⟩
  have hnothing := (drained_rows happens.reachable (drained_of_stage hfinal)).2
  rw [(happens_final happens hfinal).status] at hstatus
  split at hstatus
  · cases hstatus
  · split at hstatus
    · cases hstatus
    · unfold countsStatus at hstatus
      split at hstatus
      · exact (hnothing ‹_›).2
      · split at hstatus
        · assumption
        · split at hstatus <;> cases hstatus

/-! ## From bytes to bytes -/

section Batch

variable {host : Host} {arrayItems : List UInt8 → List Json × Option Exc}

/-- The prompts of a batch file, as many as the cap admits. -/
def batchItems (maxItems : Option ℕ) (lines : List BatchLine) : List PromptItem :=
  match maxItems with
  | none => lines.filterMap BatchLine.item?
  | some m => (lines.filterMap BatchLine.item?).take (max 1 m)

theorem take_firstEntries (maxItems : Option ℕ) (entries : List Entry) :
    entries.take (firstEntries maxItems entries).length = firstEntries maxItems entries := by
  cases maxItems with
  | none => exact List.take_length
  | some m =>
    show entries.take (entries.take (max 1 m)).length = entries.take (max 1 m)
    rw [List.length_take, List.take_eq_take_iff]
    omega

theorem firstEntries_items (maxItems : Option ℕ) (lines : List BatchLine) :
    firstEntries maxItems ((lines.filterMap BatchLine.item?).map .item) =
      (batchItems maxItems lines).map .item := by
  cases maxItems with
  | none => rfl
  | some m => exact (List.map_take).symm

/-- Each prompt of the file has one row, with its id, in the result file of a job that
nothing has stopped and whose spend checks have not raised; if the job succeeded they are
results, and a download is these rows. -/
theorem batch_to_download {lines : List BatchLine}
    (hinput : J.input = streamItems host arrayItems (batchBytes lines)) {s : State J.concurrency}
    (hraised : Unraised J s) (hstatus : Unhindered s.ctx.record) {written : List (Written host)}
    (hwritten : written.map Written.row = s.ctx.sink.file) :
    (written.map fun w => w.row.itemId).Perm
        ((batchItems J.config.maxItems lines).map PromptItem.id) ∧
      (s.ctx.record.status = .succeeded → ∀ w ∈ written, w.row.isResult = true) ∧
      downloadJob host s.ctx.record.status false .ndjson .all (some (fileBytes written)) =
        .body (fileText written) none := by
  have h := hraised.reachable
  have hterminal : s.ctx.record.status.IsTerminal := by
    rcases hstatus with hstatus | hstatus <;> rw [hstatus] <;> decide
  have hstage := stage_of_terminal h hterminal
  have hrows : written.map Written.row = s.ctx.sink.submitted :=
    hwritten.trans (final_file h hstage).1
  refine ⟨?_, fun hsucceeded => ?_, downloadJob_file hterminal .all written |>.trans ?_⟩
  · have hnone := (drained_empty h (drained_of_stage hstage)).2
    have hids := (unraised_balanced hraised).settled_eq
      (by simp only [idPool, hnone, Multiset.map_zero])
    have hadmitted : J.input.entries.take s.ctx.record.counts.ingested =
        (batchItems J.config.maxItems lines).map .item := by
      rw [whole_input h hstage hstatus, take_firstEntries, hinput, streamItems,
        iterItemsSync_batch, firstEntries_items]
    have hsubmitted : written.map (fun w => w.row.itemId) =
        s.ctx.sink.submitted.map Row.itemId := by
      rw [← hrows, List.map_map]
      rfl
    have hitems : ((batchItems J.config.maxItems lines).map .item).map Entry.itemId =
        (batchItems J.config.maxItems lines).map PromptItem.id := List.map_map
    rw [hsubmitted, ← hitems, ← hadmitted]
    exact Multiset.coe_eq_coe.mp hids
  · have htally := (reachable_tallied h).failed
    rw [none_failed h hstage hsucceeded, ← hrows, zero_add, List.countP_eq_length] at htally
    exact fun w hw => htally w.row (List.mem_map_of_mem hw)
  · have hchosen : chosen .all written = written := List.filter_eq_self.mpr fun _ _ => rfl
    rw [hchosen]

end Batch

def flush : Margin := ⟨[], fun _ hc => absurd hc List.not_mem_nil⟩

def indent : Margin := ⟨[' '], fun _ hc => Or.inl (List.mem_singleton.mp hc)⟩

/-- Two prompts, with a margin and a blank line. -/
def twoLines : List BatchLine :=
  [.row indent ⟨"a", "hi"⟩ flush, .blank indent, .row flush ⟨"b", "say \"no\"\n"⟩ flush]

def twoLinesJob : JobRunner CallResult where
  provider := scripted (1 / 5) (1 / 5)
  config := { concurrency := some 1 }
  input := streamItems tenthsHost noArray (batchBytes twoLines)

def answered : Action CallResult 1 := .nth 0 (.reply (.returned { statusCode := 200 }) 0 false)

def twoLinesRun : List (Action CallResult 1) :=
  List.replicate 5 (.runner false) ++ [.nth 0 .take, answered, .nth 0 .take, answered] ++
  List.replicate 4 (.runner false) ++
  [.nth 0 .take, .runner false, .writer, .writer, .writer, .runner false]

def twoLinesEnd : State 1 :=
  (Runs.exec (step twoLinesJob) (twoLinesJob.start 0 0) twoLinesRun).get (by decide +kernel)

def twoLinesWritten : List (Written tenthsHost) :=
  twoLinesEnd.ctx.sink.file.pmap Written.mk (by decide +kernel)

theorem batch_to_download_twoLines :
    (twoLinesWritten.map fun w => w.row.itemId).Perm ["a", "b"] ∧
      downloadJob tenthsHost twoLinesEnd.ctx.record.status false .ndjson .all
        (some (fileBytes twoLinesWritten)) = .body (fileText twoLinesWritten) none := by
  have hquiet : ∀ a ∈ twoLinesRun, a.raisesInCheck = false := by decide +kernel
  have hraised : Unraised twoLinesJob twoLinesEnd :=
    ⟨0, 0, twoLinesRun, (Option.some_get _).symm, hquiet⟩
  have hstatus : Unhindered twoLinesEnd.ctx.record := Or.inl (by decide +kernel)
  have hwritten : twoLinesWritten.map Written.row = twoLinesEnd.ctx.sink.file := by
    rw [twoLinesWritten, List.map_pmap, List.pmap_eq_map, List.map_id']
  have hinput : twoLinesJob.input = streamItems tenthsHost noArray (batchBytes twoLines) := rfl
  obtain ⟨hids, -, hdownload⟩ := batch_to_download hinput hraised hstatus hwritten
  exact ⟨hids, hdownload⟩

end BatchEngine.Api
