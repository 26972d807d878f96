import BatchEngine.Api.Download
import BatchEngine.Core.SinkOrder

/-!
# What a request sees of a job

A request reads the record of the job when it comes in, and a download reads the result
file after that, while the run goes on. A terminal status is set when the file is
complete, so the two views agree.
-/

set_option autoImplicit false

namespace BatchEngine.Api

open BatchEngine.Core BatchEngine.Providers

variable {R : Type*} {J : JobRunner R} {host : Py.Host}

/-- The counter of the rows that a filter lets through. -/
def Include.count (incl : Include) (counts : JobCounts) : ℕ :=
  match incl with
  | all => counts.ingested
  | success => counts.succeeded
  | errors => counts.failed

theorem length_chosen (incl : Include) {written : List (Written host)} {record : JobRecord}
    (htally : Tallied record (written.map Written.row)) (hconserved : record.counts.conserved) :
    (chosen incl written).length = incl.count record.counts := by
  have hsucceeded := htally.succeeded
  have hfailed := htally.failed
  rw [List.countP_map] at hsucceeded hfailed
  rw [List.length_map] at hfailed
  have hsplit := List.length_eq_countP_add_countP (fun w : Written host => w.row.isResult)
    (l := written)
  unfold JobCounts.conserved at hconserved
  rw [chosen, ← List.countP_eq_length_filter]
  cases incl with
  | all =>
    have hall : written.countP (fun w => Include.all.wants w.row) = written.length :=
      List.countP_eq_length.mpr fun _ _ => rfl
    rw [hall]
    show _ = record.counts.ingested
    omega
  | success => exact hsucceeded.symm
  | errors =>
    have herrors : written.countP (fun w => Include.errors.wants w.row) =
        written.countP fun w => ¬ w.row.isResult = true := by
      congr 1
      funext w
      cases w.row <;> rfl
    rw [herrors]
    show _ = record.counts.failed
    have hsame : written.countP (fun w => w.row.isResult) =
        written.countP (Row.isResult ∘ Written.row) := rfl
    omega

theorem conflict_iff (host : Py.Host) {status : JobStatus} (format : Format) (incl : Include)
    (file : Option (List UInt8)) :
    downloadJob host status false format incl file = .conflict ↔ ¬ status.IsTerminal := by
  have hstream : streamFile host format incl file ≠ .conflict := by
    unfold streamFile
    cases format <;> exact nofun
  cases status <;>
    simp [downloadJob, JobStatus.IsTerminal, hstream]

/-- The answer to a download of the whole file. -/
theorem downloadJob_file {status : JobStatus} (hterminal : status.IsTerminal) (incl : Include)
    (written : List (Written host)) :
    downloadJob host status false .ndjson incl (some (fileBytes written)) =
      .body (fileText (chosen incl written)) none := by
  have hopen : ¬ ((status = .queued ∨ status = .running) ∧ false = false) := by
    rintro ⟨rfl | rfl, -⟩ <;> exact absurd hterminal (by decide)
  rw [downloadJob, if_neg hopen, streamFile, downloadLines_file]
  show DownloadAnswer.body (((chosen incl written).map Written.text).flatMap _) none = _
  rw [List.flatMap_map]
  rfl

/-- In every run in which no spend check raises, a download is refused before a request sees
a terminal status. From then on the record stays as it is, and a download, whenever it reads
the file, yields the rows that the counters count, in the order in which they were
submitted. -/
theorem terminal_complete {s : State J.concurrency} (h : Unraised J s) {r : JobRecord}
    (hr : Visible s r) :
    (¬ r.status.IsTerminal → ∀ (host : Py.Host) format incl file,
      downloadJob host r.status false format incl file = .conflict) ∧
    (r.status.IsTerminal →
      r.counts.conserved ∧ r.counts.pending = 0 ∧ r.counts.inFlight = 0 ∧
      ∀ later (s' : State J.concurrency), Runs.exec (step J) s later = some s' →
        s'.ctx.record = r ∧
        ∀ (host : Py.Host) (written : List (Written host)),
          written.map Written.row = s'.ctx.sink.file →
          written.map Written.row = s.ctx.sink.submitted ∧
          ∀ incl, ∃ text,
            downloadJob host r.status false .ndjson incl (some (fileBytes written)) =
              .body text none ∧
            TextFile.lines text = (chosen incl written).map Written.text ∧
            (TextFile.lines text).length = incl.count r.counts) := by
  refine ⟨fun hopen host format incl file => (conflict_iff host format incl file).mpr hopen, ?_⟩
  intro hterminal
  have hreach := h.reachable
  obtain rfl := visible_terminal hreach hr hterminal
  have hstage := stage_of_terminal hreach hterminal
  have hdrained := drained_of_stage hstage
  have hconserved : s.ctx.record.counts.conserved := by
    rw [conserved_iff hreach hdrained, unraised_pending h]
    exact lt_irrefl _
  obtain ⟨hpending, hflight⟩ := drained_counts h hdrained
  refine ⟨hconserved, hpending, hflight, fun later s' hrun => ?_⟩
  obtain ⟨hrecord, hfile⟩ := run_final hreach hstage hrun
  refine ⟨hrecord, fun host written hwritten => ?_⟩
  have hsubmitted : written.map Written.row = s.ctx.sink.submitted := by
    rw [hwritten, hfile]
    exact (final_file hreach hstage).1
  refine ⟨hsubmitted, fun incl => ⟨_, downloadJob_file hterminal incl written, ?_⟩⟩
  have htally : Tallied s.ctx.record (written.map Written.row) :=
    hsubmitted ▸ reachable_tallied hreach
  rw [lines_fileText, List.length_map]
  exact ⟨rfl, length_chosen incl htally hconserved⟩

/-- The job of `twoRows`, up to its last save. -/
def twoRowsEnd : State 2 :=
  (Runs.exec (step twoRows) twoRowsDrained
    ([.writer, .writer, .writer] ++ List.replicate 2 (.runner false))).get (by decide +kernel)

def twoRowsWritten : List (Written tenthsHost) :=
  twoRowsEnd.ctx.sink.file.pmap Written.mk (by decide +kernel)

theorem terminal_complete_twoRows :
    (chosen .errors twoRowsWritten).length = 1 ∧ ∃ text,
      downloadJob tenthsHost twoRowsEnd.ctx.record.status false .ndjson .errors
        (some (fileBytes twoRowsWritten)) = .body text none ∧
      (TextFile.lines text).length = 1 := by
  have hlast : ∀ a ∈ ([.writer, .writer, .writer] ++ List.replicate 2 (.runner false) :
      List (Action CallResult 2)), a.raisesInCheck = false := by decide +kernel
  have hraised : Unraised twoRows twoRowsEnd :=
    twoRowsDrained_unraised.exec (Option.some_get _).symm hlast
  have hterminal : twoRowsEnd.ctx.record.status.IsTerminal := by decide +kernel
  have hfailed : Include.errors.count twoRowsEnd.ctx.record.counts = 1 := by decide +kernel
  have hwritten : twoRowsWritten.map Written.row = twoRowsEnd.ctx.sink.file := by
    rw [twoRowsWritten, List.map_pmap, List.pmap_eq_map, List.map_id']
  obtain ⟨-, -, -, hlater⟩ := (terminal_complete hraised (Or.inl rfl)).2 hterminal
  obtain ⟨-, hdownload⟩ := hlater [] twoRowsEnd rfl
  obtain ⟨text, hbody, hlines, hlength⟩ := (hdownload tenthsHost twoRowsWritten hwritten).2 .errors
  rw [hfailed] at hlength
  refine ⟨?_, text, hbody, hlength⟩
  rw [← hlength, hlines, List.length_map]

/-- The job of `overflowing`, whose assertion fails behind its terminal status. -/
def overflowingEnd : State overflowing.concurrency :=
  (Runs.exec (step overflowing) overflowingDrained
    (List.replicate 53 .writer ++ [.runner false])).get (by decide +kernel)

theorem overflowingEnd_reachable : Reachable overflowing overflowingEnd :=
  overflowingDrained_reachable.exec (Option.some_get _).symm

/-- No cost method raises, and a terminal status is visible with `pending` at -1. -/
theorem terminal_unbalanced : ∃ (J : JobRunner CallResult) (s : State J.concurrency)
    (r : JobRecord), J.provider.costMayRaise = false ∧ Reachable J s ∧ Visible s r ∧
      r.status.IsTerminal ∧ r.counts.pending = -1 := by
  refine ⟨overflowing, overflowingEnd, overflowingEnd.ctx.record, rfl, overflowingEnd_reachable,
    Or.inl rfl, ?_⟩
  decide +kernel

end BatchEngine.Api
