import BatchEngine.Core.Durability
import BatchEngine.Core.ResultFile

/-!
# What a crash leaves of a job

A crash leaves some beginning of the result file, with everything that was fsynced. From
it `replay` rebuilds the counters as they were when the last surviving row had been
counted; once the job is finalised it rebuilds them exactly.
-/

set_option autoImplicit false

namespace BatchEngine.Core

variable {R : Type*} {J : JobRunner R} {host : Py.Host}

/-! ## How much of the file is left -/

/-- What a crash leaves of the file: its first bytes, with all fsynced rows in them. -/
structure CrashImage (host : Py.Host) (sink : ResultSink) where
  rows : List (Written host)
  rows_eq : rows.map Written.row = sink.file
  cut : ℕ
  fsynced : (fileBytes (rows.take sink.fsynced)).length ≤ cut

def CrashImage.bytes {sink : ResultSink} (image : CrashImage host sink) : List UInt8 :=
  (fileBytes image.rows).take image.cut

theorem fileBytes_length (rows : List (Written host)) :
    (fileBytes rows).length = (rows.map fun w => w.size + 1).sum := by
  have htext : ∀ rows : List (Written host), (fileBytes rows).length = (fileText rows).length :=
    fun rows => by rw [fileBytes, TextFile.encode_ascii (ascii_fileText rows), List.length_map]
  induction rows with
  | nil => rfl
  | cons w rows ih =>
    rw [List.map_cons, List.sum_cons, ← ih, htext, htext, fileText_cons, List.length_append,
      List.length_cons, w.size_eq]
    omega

/-- The rows whose object is whole are the first ones, and at least all those that the cut
leaves with their line ends. -/
theorem complete_prefix (rows : List (Written host)) : ∀ n, ∃ k, complete rows n = rows.take k ∧
    k ≤ rows.length ∧ ∀ j, j ≤ rows.length → (fileBytes (rows.take j)).length ≤ n → j ≤ k := by
  induction rows with
  | nil => exact fun n => ⟨0, rfl, le_rfl, fun j hj _ => hj⟩
  | cons w rows ih =>
    intro n
    by_cases hsize : w.size ≤ n
    · obtain ⟨k, hcomplete, hk, hleast⟩ := ih (n - (w.size + 1))
      refine ⟨k + 1, ?_, Nat.succ_le_succ hk, ?_⟩
      · rw [complete, if_pos hsize, hcomplete, List.take_succ_cons]
      · intro j hj hlength
        cases j with
        | zero => exact Nat.zero_le _
        | succ j =>
          rw [List.take_succ_cons, fileBytes_length, List.map_cons, List.sum_cons,
            ← fileBytes_length] at hlength
          have hle := hleast j (Nat.le_of_succ_le_succ hj) (by omega)
          omega
    · refine ⟨0, by rw [complete, if_neg hsize]; rfl, Nat.zero_le _, ?_⟩
      intro j _ hlength
      cases j with
      | zero => exact le_rfl
      | succ j =>
        rw [List.take_succ_cons, fileBytes_length, List.map_cons, List.sum_cons] at hlength
        omega

/-! ## What replay makes of it -/

/-- The counts and the ids of these rows. -/
def tally (rows : List Row) : ReplayState where
  succeeded := rows.countP Row.isResult
  failed := rows.countP fun row => !row.isResult
  seenItemIds := (rows.map Row.itemId).toFinset

theorem add_eq_tally (rows : List (Written host)) :
    ReplayState.add {} rows = tally (rows.map Written.row) := by
  simp [ReplayState.add, tally, List.countP_map, Function.comp_def]

/-- Replay of what a crash leaves counts the first rows, with all that were fsynced. -/
theorem replay_image {sink : ResultSink} (hsink : sink.fsynced ≤ sink.file.length)
    (image : CrashImage host sink) : ∃ k, sink.fsynced ≤ k ∧ k ≤ sink.file.length ∧
      replay host image.bytes = .ok (tally (sink.file.take k)) := by
  obtain ⟨k, hcomplete, hk, hleast⟩ := complete_prefix image.rows image.cut
  have hlength : image.rows.length = sink.file.length := by
    rw [← image.rows_eq, List.length_map]
  refine ⟨k, hleast _ (hlength ▸ hsink) image.fsynced, hlength ▸ hk, ?_⟩
  rw [CrashImage.bytes, replay_take, hcomplete, add_eq_tally, List.map_take, image.rows_eq]

theorem countP_not_isResult (rows : List Row) :
    rows.countP Row.isResult + rows.countP (fun row => !row.isResult) = rows.length := by
  have hsplit := List.length_eq_countP_add_countP Row.isResult (l := rows)
  simp only [Bool.not_eq_true, Bool.decide_eq_false] at hsplit
  omega

theorem tally_submitted {s : State J.concurrency} (h : Reachable J s) :
    (tally s.ctx.sink.submitted).succeeded = s.ctx.record.counts.succeeded ∧
      (tally s.ctx.sink.submitted).failed = s.ctx.record.counts.failed := by
  have htally := reachable_tallied h
  have hfailed := htally.failed
  have hsplit := countP_not_isResult s.ctx.sink.submitted
  refine ⟨htally.succeeded.symm, ?_⟩
  show s.ctx.sink.submitted.countP (fun row => !row.isResult) = _
  omega

/-! ## The law -/

/-- After a crash at any moment `replay` counts some first rows of the result file, all
fsynced rows among them, and no more than the job had counted. When the job is finalised
and no spend check has raised, it counts what the record says and has seen the ids of exactly
the ingested entries. -/
theorem crash_recovery {s : State J.concurrency} (h : Reachable J s)
    (image : CrashImage host s.ctx.sink) :
    ∃ k state, replay host image.bytes = .ok state ∧ state = tally (s.ctx.sink.submitted.take k) ∧
      s.ctx.sink.fsynced ≤ k ∧ state.succeeded ≤ s.ctx.record.counts.succeeded ∧
      state.failed ≤ s.ctx.record.counts.failed ∧
      (Unraised J s → s.phase.stage ≠ .unfinalized → state =
        { succeeded := s.ctx.record.counts.succeeded
          failed := s.ctx.record.counts.failed
          seenItemIds :=
            ((J.input.entries.take s.ctx.record.counts.ingested).map Entry.itemId).toFinset }) := by
  obtain ⟨k, hfsynced, hk, hreplay⟩ := replay_image (reachable_flushed h).ahead image
  have htake : s.ctx.sink.file.take k = s.ctx.sink.submitted.take k := by
    rw [ResultSink.submitted, List.take_append_of_le_length hk]
  rw [htake] at hreplay
  obtain ⟨hsucceeded, hfailed⟩ := tally_submitted h
  have hsublist := List.take_sublist k s.ctx.sink.submitted
  refine ⟨k, _, hreplay, rfl, hfsynced, ?_, ?_, ?_⟩
  · rw [← hsucceeded]
    exact hsublist.countP_le
  · rw [← hfailed]
    exact hsublist.countP_le
  · intro hraised hstage
    obtain ⟨hfile, hall⟩ := final_file h hstage
    have hwhole : s.ctx.sink.submitted.take k = s.ctx.sink.submitted := by
      apply List.take_of_length_le
      rw [← hfile, ← hall]
      exact hfsynced
    have hnone := (drained_empty h (drained_of_stage hstage)).2
    have hids := (unraised_balanced hraised).settled_eq
      (by simp only [idPool, hnone, Multiset.map_zero])
    rw [hwhole, ← hsucceeded, ← hfailed, ← List.toFinset_eq_of_perm _ _ (Multiset.coe_eq_coe.mp hids)]
    rfl

/-! ## A crash after the end -/

def twoRowsFinal : State 2 :=
  (Runs.exec (step twoRows) twoRowsDrained [.writer, .writer, .writer, .runner false]).get
    (by decide +kernel)

theorem twoRowsFinal_unraised : Unraised twoRows twoRowsFinal := by
  have hlast : ∀ a ∈ ([.writer, .writer, .writer, .runner false] :
      List (Action Providers.CallResult 2)), a.raisesInCheck = false := by decide +kernel
  exact twoRowsDrained_unraised.exec (Option.some_get _).symm hlast

/-- The file of `twoRowsFinal`, with the power cut once it was closed. -/
def twoRowsImage : CrashImage tenthsHost twoRowsFinal.ctx.sink where
  rows :=
    [⟨.error ⟨"line-1", .invalidInput, .ingest "malformed JSON line", 1, none⟩, by decide⟩,
      ⟨.result ⟨"a", "hi", ⟨3, 0⟩, 0, 1⟩, by decide⟩]
  rows_eq := by decide +kernel
  cut := 500
  fsynced := by decide +kernel

theorem crash_recovery_twoRows : ∃ state, replay tenthsHost twoRowsImage.bytes = .ok state ∧
    state.succeeded = 1 ∧ state.failed = 1 := by
  have hrecovered := crash_recovery twoRowsFinal_unraised.reachable twoRowsImage
  obtain ⟨k, state, hreplay, -, -, -, -, hfinal⟩ := hrecovered
  have hphase : twoRowsFinal.phase = .savingFinal := by decide +kernel
  have hstage : twoRowsFinal.phase.stage ≠ .unfinalized := by
    rw [hphase]
    exact Stage.noConfusion
  have hcounts : twoRowsFinal.ctx.record.counts.succeeded = 1 ∧
      twoRowsFinal.ctx.record.counts.failed = 1 := by decide +kernel
  refine ⟨state, hreplay, ?_, ?_⟩
  · rw [hfinal twoRowsFinal_unraised hstage]
    exact hcounts.1
  · rw [hfinal twoRowsFinal_unraised hstage]
    exact hcounts.2

end BatchEngine.Core
