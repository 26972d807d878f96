import BatchEngine.Core.Lead
import BatchEngine.Core.Snapshots

/-!
# The status endpoint

`get_status` on the record of a job, and the number of remaining items from which it
estimates the time to go.
-/

set_option autoImplicit false

namespace BatchEngine.Api

open BatchEngine.Core BatchEngine.Providers

/-- `round(q, places)`. -/
def roundTo (places : ℕ) (q : ℚ) : ℚ := Py.roundHalfEven (q * 10 ^ places) / 10 ^ places

/-- `JobTiming.elapsed_s`, at wall-clock time `wall`. -/
def elapsedS (record : JobRecord) (startedAt wall : ℚ) : ℚ :=
  record.finishedAt.getD wall - startedAt

def throughput (record : JobRecord) (startedAt wall : ℚ) : ℚ :=
  let elapsed := elapsedS record startedAt wall
  if 0 < elapsed then done record.counts / elapsed else 0

/-- What `get_status` divides by the throughput. -/
def remaining (counts : JobCounts) : ℤ :=
  max 0 ((counts.ingested : ℤ) - done counts) + counts.pending

structure JobTimingResponse where
  startedAt : ℚ
  elapsedS : ℚ
  etaS : Option ℚ
  throughputRps : ℚ
  deriving DecidableEq, Repr

structure JobStatusResponse where
  status : String
  counts : JobCounts
  progressPct : ℚ
  timing : JobTimingResponse
  usage : UsageTotals
  errorsByClass : List (FailureClass × ℕ)
  abortReason : Option AbortReason
  deriving DecidableEq, Repr

def getStatus (record : JobRecord) (startedAt wall : ℚ) : JobStatusResponse :=
  let counts := record.counts
  let rate := throughput record startedAt wall
  { status := record.status.value
    counts
    progressPct :=
      if 0 < counts.ingested then roundTo 1 ((done counts : ℚ) / counts.ingested * 100) else 0
    timing :=
      { startedAt
        elapsedS := roundTo 2 (elapsedS record startedAt wall)
        etaS :=
          if record.status = .running ∧ 0 < rate then some (roundTo 1 (remaining counts / rate))
          else none
        throughputRps := roundTo 3 rate }
    usage := { record.usage with estimatedCostUsd := roundTo 6 record.usage.estimatedCostUsd }
    errorsByClass := record.errorsByClass
    abortReason := record.abortReason }

/-! ## The items to go -/

section Eta

variable {R : Type*} {J : JobRunner R}

/-- The entries without a row are counted by `ingested - done` and again by `pending`, less
the raises of spend checks each time. -/
theorem remaining_eq {now wall : ℚ} {actions : List (Action R J.concurrency)}
    {s : State J.concurrency} (hrun : Runs.exec (step J) (J.start now wall) actions = some s) :
    remaining s.ctx.record.counts =
      max 0 ((unresolved s).card - raisesIn actions : ℤ) +
        ((unresolved s).card - raisesIn actions) := by
  have hpending := pending_eq hrun
  have htally := reachable_tallied ⟨now, wall, actions, hrun⟩
  have hsucceeded := htally.succeeded
  have hfailed := htally.failed
  have hrows := htally.pending
  have hopen : (s.ctx.record.counts.ingested : ℤ) - done s.ctx.record.counts =
      (unresolved s).card - raisesIn actions := by
    unfold done
    push_cast
    omega
  rw [remaining, hopen, hpending]

/-- The estimate counts each unfinished item once exactly if twice as many items are
unfinished as spend checks have raised; without a raise it counts each of them twice. -/
theorem remaining_eq_unresolved_iff {now wall : ℚ} {actions : List (Action R J.concurrency)}
    {s : State J.concurrency} (hrun : Runs.exec (step J) (J.start now wall) actions = some s) :
    (remaining s.ctx.record.counts = (unresolved s).card ↔
      (unresolved s).card = 2 * raisesIn actions) ∧
    ((∀ a ∈ actions, a.raisesInCheck = false) →
      remaining s.ctx.record.counts = 2 * (unresolved s).card) := by
  rw [remaining_eq hrun, ← raisesIn_eq_zero]
  constructor
  · omega
  · omega

/-- The job of `twoRows`, of whose two items one is done after two seconds. -/
def halfDoneRun : List (Action CallResult twoRows.concurrency) :=
  List.replicate 5 (.runner false) ++
  [.nth 0 .take, .tick 2 2,
    .nth 0 (.reply (.returned { statusCode := 200, text := "hi" }) 0 false)]

def halfDone : State twoRows.concurrency :=
  (Runs.exec (step twoRows) (twoRows.start 0 0) halfDoneRun).get (by decide +kernel)

theorem halfDoneRun_quiet : ∀ a ∈ halfDoneRun, a.raisesInCheck = false := by decide +kernel

/-- One item in two seconds and one to go make an estimate of four seconds. -/
theorem eta_counts_twice : ∃ (J : JobRunner CallResult) (s : State J.concurrency),
    Reachable J s ∧ (getStatus s.ctx.record 0 s.ctx.wall).timing.etaS = some 4 ∧
      throughput s.ctx.record 0 s.ctx.wall = 1 / 2 ∧ (unresolved s).card = 1 ∧
      remaining s.ctx.record.counts ≠ (unresolved s).card := by
  have hone : (unresolved halfDone).card = 1 := by decide +kernel
  have htwo : remaining halfDone.ctx.record.counts = 2 := by decide +kernel
  refine ⟨twoRows, halfDone, ⟨0, 0, halfDoneRun, (Option.some_get _).symm⟩, by decide +kernel,
    by decide +kernel, hone, ?_⟩
  rw [htwo, hone]
  decide

theorem remaining_eq_unresolved_iff_halfDone :
    remaining halfDone.ctx.record.counts = 2 * (unresolved halfDone).card := by
  have hrun : Runs.exec (step twoRows) (twoRows.start 0 0) halfDoneRun = some halfDone :=
    (Option.some_get _).symm
  exact (remaining_eq_unresolved_iff hrun).2 halfDoneRun_quiet

end Eta

/-! ## The percentage -/

section Percentage

variable {R : Type*} {J : JobRunner R}

theorem roundTo_near (q : ℚ) : q - 1 / 20 ≤ roundTo 1 q ∧ roundTo 1 q ≤ q + 1 / 20 := by
  obtain ⟨hbelow, habove⟩ := Py.roundHalfEven_near (q * 10 ^ 1)
  unfold roundTo
  constructor <;> linarith

/-- A number between `low` and `high` tenths, but for less than half of one, is rounded to
one of them or in between. -/
theorem roundTo_between (q : ℚ) (low high : ℤ) (hlow : (low : ℚ) - 1 / 2 < q * 10)
    (hhigh : q * 10 < high + 1 / 2) :
    (low : ℚ) / 10 ≤ roundTo 1 q ∧ roundTo 1 q ≤ high / 10 := by
  obtain ⟨hbelow, habove⟩ := Py.roundHalfEven_near (q * 10)
  have htenths : roundTo 1 q = (Py.roundHalfEven (q * 10) : ℚ) / 10 := by
    unfold roundTo
    rw [pow_one]
  rw [htenths]
  generalize Py.roundHalfEven (q * 10) = r at hbelow habove ⊢
  have hmore : ((low - 1 : ℤ) : ℚ) < r := by
    push_cast
    linarith
  have hless : (r : ℚ) < ((high + 1 : ℤ) : ℚ) := by
    push_cast
    linarith
  have hge : low ≤ r := Int.le_of_sub_one_lt (Int.cast_lt.mp hmore)
  have hle : r ≤ high := Int.le_of_lt_add_one (Int.cast_lt.mp hless)
  constructor
  · exact div_le_div_of_nonneg_right (Int.cast_le.mpr hge) (by norm_num)
  · exact div_le_div_of_nonneg_right (Int.cast_le.mpr hle) (by norm_num)

/-- The percentage counts the entries read so far, not those of the file. As long as no spend
check raises, it never lags by more than the items under way, so once many entries are read it
says 100, however much of the file is left. -/
theorem progress_shown {s : State J.concurrency} (h : Unraised J s) (startedAt wall : ℚ)
    (hread : 0 < s.ctx.record.counts.ingested) :
    0 ≤ (getStatus s.ctx.record startedAt wall).progressPct ∧
    (getStatus s.ctx.record startedAt wall).progressPct ≤ 100 ∧
    100 * (1 - (5 * J.concurrency + 1) / s.ctx.record.counts.ingested) - 1 / 20 ≤
      (getStatus s.ctx.record startedAt wall).progressPct ∧
    (2000 * (5 * J.concurrency + 1) < s.ctx.record.counts.ingested →
      (getStatus s.ctx.record startedAt wall).progressPct = 100) := by
  obtain ⟨hlag, hle⟩ := ingested_le_done h
  have hshown : (getStatus s.ctx.record startedAt wall).progressPct =
      roundTo 1 ((done s.ctx.record.counts : ℚ) / s.ctx.record.counts.ingested * 100) :=
    if_pos hread
  rw [hshown]
  generalize done s.ctx.record.counts = k at hlag hle
  generalize s.ctx.record.counts.ingested = n at hread hlag hle
  have hn : (0 : ℚ) < n := Nat.cast_pos.mpr hread
  have hlag' : (n : ℚ) ≤ k + (5 * J.concurrency + 1) := by exact_mod_cast hlag
  have hle' : (k : ℚ) ≤ n := by exact_mod_cast hle
  have hk : (0 : ℚ) ≤ k := Nat.cast_nonneg k
  have hone : (k : ℚ) / n ≤ 1 := (div_le_one hn).mpr hle'
  have hzero : (0 : ℚ) ≤ k / n := div_nonneg hk hn.le
  have hrange := roundTo_between ((k : ℚ) / n * 100) 0 1000
    (by push_cast; linarith) (by push_cast; linarith)
  norm_num at hrange
  refine ⟨hrange.1, hrange.2, ?_, fun hmany => ?_⟩
  · have hshare : 1 - (5 * J.concurrency + 1) / (n : ℚ) ≤ k / n := by
      rw [sub_le_iff_le_add, ← add_div, one_le_div hn]
      exact hlag'
    have hnear := (roundTo_near ((k : ℚ) / n * 100)).1
    linarith
  · have hmany' : 2000 * (5 * (J.concurrency : ℚ) + 1) < n := by exact_mod_cast hmany
    have hshare : 1999 / 2000 < (k : ℚ) / n := by
      rw [lt_div_iff₀ hn]
      linarith
    have hfull := roundTo_between ((k : ℚ) / n * 100) 1000 1000
      (by push_cast; linarith) (by push_cast; linarith)
    norm_num at hfull
    exact le_antisymm hfull.2 hfull.1

/-- One of two items is done. -/
theorem progress_shown_halfDone :
    (getStatus halfDone.ctx.record 0 2).progressPct = 50 ∧
      (getStatus halfDone.ctx.record 0 2).progressPct ≤ 100 := by
  have hraised : Unraised twoRows halfDone :=
    ⟨0, 0, halfDoneRun, (Option.some_get _).symm, halfDoneRun_quiet⟩
  have hread : 0 < halfDone.ctx.record.counts.ingested := by decide +kernel
  exact ⟨by decide +kernel, (progress_shown hraised 0 2 hread).2.1⟩

end Percentage

end BatchEngine.Api
