import BatchEngine.Api.Visible
import BatchEngine.Core.FlushLag
import BatchEngine.Core.Recovery
import BatchEngine.Core.Snapshots

/-!
# Downloads of a job that still runs

With `partial` the result file is streamed as far as the disk has it: some beginning, with
every fsynced row, and perhaps a torn row at its end. What a client has read once it reads
again, in the same place, in every later download.
-/

set_option autoImplicit false

namespace BatchEngine.Api

open BatchEngine.Core BatchEngine.Providers

variable {R : Type*} {J : JobRunner R} {host : Py.Host}

/-! ## The file grows -/

/-- A longer beginning of a longer file has at least the same whole rows. -/
theorem complete_mono (rows more : List (Written host)) : ∀ {n m : ℕ}, n ≤ m →
    complete rows n <+: complete (rows ++ more) m := by
  induction rows with
  | nil => exact fun _ => List.nil_prefix
  | cons w rows ih =>
    intro n m hle
    rw [List.cons_append, complete, complete]
    by_cases hsize : w.size ≤ n
    · rw [if_pos hsize, if_pos (hsize.trans hle), List.prefix_cons_inj]
      exact ih (Nat.sub_le_sub_right hle _)
    · rw [if_neg hsize]
      exact List.nil_prefix

theorem chosen_prefix (incl : Include) {rows rows' : List (Written host)} (h : rows <+: rows') :
    chosen incl rows <+: chosen incl rows' := by
  obtain ⟨more, rfl⟩ := h
  unfold chosen
  rw [List.filter_append]
  exact List.prefix_append _ _

theorem submits_file (rows : List Row) : ∀ sink : ResultSink,
    (rows.foldl ResultSink.submit sink).file = sink.file := by
  induction rows with
  | nil => exact fun _ => rfl
  | cons row rows ih => exact fun sink => ih (sink.submit row)

/-- The writer adds a line to the file, and nobody else touches it. -/
theorem step_file {n : ℕ} {s s' : State n} (h : SinkTurn s s') :
    s.ctx.sink.file <+: s'.ctx.sink.file := by
  cases h with
  | rests _ hsink => rw [hsink]
  | submits rows _ _ hsink => rw [hsink, submits_file]
  | writes now _ hsink =>
    obtain ⟨-, ⟨rest, -, hnext⟩ | ⟨row, rest, -, hnext⟩⟩ := SinkClock.writerStep_cases hsink
    · rw [hnext]
      exact List.prefix_rfl
    · rw [hnext, SinkClock.afterPass_file]
      exact List.prefix_append _ _
  | waits now _ hsink =>
    obtain ⟨-, -, hnext⟩ := SinkClock.writerTimeout_cases hsink
    rw [hnext, SinkClock.afterPass_file]
  | closes _ _ hsink =>
    rw [hsink]
    exact List.prefix_rfl
  | ends _ _ _ hsink => rw [hsink]

theorem run_file {s s' : State J.concurrency} {later : List (Action R J.concurrency)}
    (h : Reachable J s) (hrun : Runs.exec (step J) s later = some s') :
    s.ctx.sink.file <+: s'.ctx.sink.file := by
  have hend : Reachable J s' ∧ s.ctx.sink.file <+: s'.ctx.sink.file :=
    Runs.exec_invariant' (I := fun t => Reachable J t ∧ s.ctx.sink.file <+: t.ctx.sink.file)
      (fun t a u ht hu => ⟨ht.1.step hu, ht.2.trans (step_file (step_sink ht.1 hu))⟩)
      ⟨h, List.prefix_rfl⟩ hrun
  exact hend.2

/-- The rows of an earlier file are the first rows of a later one. -/
theorem image_rows {sink sink' : ResultSink} (hgrows : sink.file <+: sink'.file)
    (image : CrashImage host sink) (image' : CrashImage host sink') :
    ∃ more, image'.rows = image.rows ++ more := by
  have hrow : Function.Injective (Written.row : Written host → Row) := by
    intro w w' h
    obtain ⟨row, _⟩ := w
    obtain ⟨row', _⟩ := w'
    cases h
    rfl
  rw [← image.rows_eq, ← image'.rows_eq] at hgrows
  obtain ⟨more, hmore⟩ := hgrows
  obtain ⟨first, rest, hrows, hfirst, -⟩ := List.map_eq_append_iff.mp hmore.symm
  exact ⟨rest, by rw [hrows, List.map_injective_iff.mpr hrow hfirst]⟩

/-! ## What a client reads -/

/-- The body is the lines of `whole`, and after them perhaps, without a filter, a line that
is the beginning of a row. -/
inductive Reads (incl : Include) (whole : List (Written host)) : DownloadAnswer → Prop
  | whole : Reads incl whole (.body (fileText whole) none)
  | torn (w : Written host) {k : ℕ} (hall : incl = .all) (hpos : 0 < k)
      (hk : k < w.text.length) :
      Reads incl whole (.body (fileText whole ++ (w.text.take k ++ ['\n'])) none)

theorem reads_take (incl : Include) (rows : List (Written host)) (n : ℕ) (status : JobStatus) :
    Reads incl (chosen incl (complete rows n))
      (downloadJob host status true .ndjson incl (some ((fileBytes rows).take n))) := by
  have hopen : ¬ ((status = .queued ∨ status = .running) ∧ true = false) := fun h => by
    cases h.2
  have htext : ∀ ws : List (Written host),
      (ws.map Written.text).flatMap (· ++ ['\n']) = fileText ws := fun ws => by
    rw [List.flatMap_map]
    rfl
  rw [downloadJob, if_neg hopen, streamFile]
  rcases downloadLines_take incl rows n with
    ⟨hlines, -⟩ | ⟨rfl, -, w, k, hpos, hk, hlines⟩
  · rw [hlines]
    show Reads incl _ (.body (((chosen incl (complete rows n)).map Written.text).flatMap _) none)
    rw [htext]
    exact .whole
  · have hchosen : chosen .all (complete rows n) = complete rows n :=
      List.filter_eq_self.mpr fun _ _ => rfl
    rw [hlines, hchosen]
    show Reads .all _
      (.body (((complete rows n).map Written.text ++ [w.text.take k]).flatMap _) none)
    rw [List.flatMap_append, htext, List.flatMap_singleton]
    exact .torn w rfl hpos hk

/-- What a client reads at one moment: the wanted ones of the first rows, with all that are
fsynced, and no more than the counters count. -/
structure Shows {n : ℕ} (s : State n) (incl : Include) (whole : List (Written host))
    (answer : DownloadAnswer) : Prop where
  reads : Reads incl whole answer
  rows : ∃ k, s.ctx.sink.fsynced ≤ k ∧
    whole.map Written.row = (s.ctx.sink.submitted.take k).filter incl.wants
  counted : whole.length ≤ incl.count s.ctx.record.counts

theorem count_rows {s : State J.concurrency} (h : Unraised J s) (incl : Include) (k : ℕ) :
    ((s.ctx.sink.submitted.take k).filter incl.wants).length ≤
      incl.count s.ctx.record.counts := by
  have hall : ((s.ctx.sink.submitted.take k).filter incl.wants).length ≤
      (s.ctx.sink.submitted.filter incl.wants).length :=
    ((List.take_sublist k _).filter _).length_le
  obtain ⟨hsucceeded, hfailed⟩ := tally_submitted h.reachable
  refine hall.trans ?_
  rw [← List.countP_eq_length_filter]
  cases incl with
  | all =>
    have hdone := (ingested_le_done h).2
    have hrows := countP_not_isResult s.ctx.sink.submitted
    have hcount := List.countP_le_length (p := Include.all.wants) (l := s.ctx.sink.submitted)
    change s.ctx.sink.submitted.countP Row.isResult = _ at hsucceeded
    change s.ctx.sink.submitted.countP (fun row => !row.isResult) = _ at hfailed
    unfold done at hdone
    show _ ≤ s.ctx.record.counts.ingested
    omega
  | success => exact hsucceeded.le
  | errors => exact hfailed.le

theorem image_shows {s : State J.concurrency} (h : Unraised J s)
    (image : CrashImage host s.ctx.sink) (incl : Include) (status : JobStatus) :
    Shows s incl (chosen incl (complete image.rows image.cut))
      (downloadJob host status true .ndjson incl (some image.bytes)) := by
  obtain ⟨k, hcomplete, hk, hleast⟩ := complete_prefix image.rows image.cut
  have hlength : image.rows.length = s.ctx.sink.file.length := by
    rw [← image.rows_eq, List.length_map]
  have hrows : (chosen incl (complete image.rows image.cut)).map Written.row =
      (s.ctx.sink.submitted.take k).filter incl.wants := by
    rw [ResultSink.submitted, List.take_append_of_le_length (hlength ▸ hk), ← image.rows_eq,
      ← List.map_take, ← hcomplete, List.filter_map]
    rfl
  refine ⟨reads_take incl image.rows image.cut status, ⟨k, ?_, hrows⟩, ?_⟩
  · exact hleast _ (hlength ▸ (reachable_flushed h.reachable).ahead) image.fsynced
  · rw [← List.length_map Written.row, hrows]
    exact count_rows h incl k

/-- As long as no spend check raises: of two partial downloads the later begins with the whole
rows of the earlier, in the same order; each has every wanted row that was fsynced, and none
that is not counted. Only an unfiltered one can end in a torn row. -/
theorem partial_downloads_grow {s s' : State J.concurrency}
    {later : List (Action R J.concurrency)} (h : Unraised J s)
    (hrun : Runs.exec (step J) s later = some s')
    (hquiet : ∀ a ∈ later, a.raisesInCheck = false) (image : CrashImage host s.ctx.sink)
    (image' : CrashImage host s'.ctx.sink) (hcut : image.cut ≤ image'.cut) (incl : Include)
    (status status' : JobStatus) :
    ∃ whole more : List (Written host),
      Shows s incl whole (downloadJob host status true .ndjson incl (some image.bytes)) ∧
      Shows s' incl (whole ++ more)
        (downloadJob host status' true .ndjson incl (some image'.bytes)) := by
  obtain ⟨added, hadded⟩ := image_rows (run_file h.reachable hrun) image image'
  have hprefix := chosen_prefix incl (complete_mono image.rows added hcut)
  rw [← hadded] at hprefix
  obtain ⟨more, hmore⟩ := hprefix
  refine ⟨_, more, image_shows h image incl status, ?_⟩
  rw [hmore]
  exact image_shows (h.exec hrun hquiet) image' incl status'

/-- The writer of `twoRows` has written the first row. -/
def twoRowsWriting : State 2 :=
  (Runs.exec (step twoRows) twoRowsDrained [.writer]).get (by decide +kernel)

def twoRowsFlushed : State 2 :=
  (Runs.exec (step twoRows) twoRowsWriting [.writer, .writer]).get (by decide +kernel)

/-- A reader finds the first row torn. -/
def tornImage : CrashImage tenthsHost twoRowsWriting.ctx.sink where
  rows := twoRowsImage.rows.take 1
  rows_eq := by decide +kernel
  cut := 60
  fsynced := by decide +kernel

def flushedImage : CrashImage tenthsHost twoRowsFlushed.ctx.sink where
  rows := twoRowsImage.rows
  rows_eq := by decide +kernel
  cut := 500
  fsynced := by decide +kernel

theorem partial_downloads_grow_twoRows : ∃ whole more : List (Written tenthsHost),
    Shows twoRowsWriting .all whole
      (downloadJob tenthsHost .running true .ndjson .all (some tornImage.bytes)) ∧
    Shows twoRowsFlushed .all (whole ++ more)
      (downloadJob tenthsHost .running true .ndjson .all (some flushedImage.bytes)) := by
  have hfirst : ∀ a ∈ ([.writer] : List (Action CallResult 2)), a.raisesInCheck = false := by
    decide +kernel
  have hothers : ∀ a ∈ ([.writer, .writer] : List (Action CallResult 2)),
      a.raisesInCheck = false := by decide +kernel
  have hraised : Unraised twoRows twoRowsWriting :=
    twoRowsDrained_unraised.exec (Option.some_get _).symm hfirst
  have hcut : tornImage.cut ≤ flushedImage.cut := by decide
  exact partial_downloads_grow hraised (Option.some_get _).symm hothers tornImage flushedImage hcut
    .all .running .running

end BatchEngine.Api
