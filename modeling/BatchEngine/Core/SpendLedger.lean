import BatchEngine.Core.TerminalStatus
import BatchEngine.Core.Usage

/-!
# The cross-run spend ledger

A live job's task charges the ledger in a `finally`, so it does so however the run
ended. But it charges `estimated_cost_usd`, and `run` writes that only in its tail: it is
zero before, and exact from there on.
-/

set_option autoImplicit false

namespace BatchEngine.Core

open Py (Json Exc PyFloat)
open BatchEngine.Providers

/-- The ledger file: missing, or what reading and parsing its text returns or raises. -/
abbrev LedgerFile := Option (Except Exc Json)

def totalSpendUsd : String := "total_spend_usd"

def loadTotalSpend : LedgerFile → Except Exc PyFloat
  | none => .ok (.fin 0)
  | some content =>
    match content >>= Py.getD totalSpendUsd (.float (.fin 0)) >>= Py.float with
    | .ok total => .ok total
    | .error e => if e = .valueError ∨ e = .typeError then .ok (.fin 0) else .error e

/-- Adding a finite float. -/
def plus : PyFloat → ℚ → PyFloat
  | .fin q, d => .fin (q + d)
  | x, _ => x

/-- The new total and the file as it is then written. -/
def recordSpend (file : LedgerFile) (deltaUsd : ℚ) : Except Exc (PyFloat × LedgerFile) := do
  let total := plus (← loadTotalSpend file) (max 0 deltaUsd)
  return (total, some (.ok (.obj [(totalSpendUsd, .float total)])))

/-- `_run_and_settle` from the moment `runner.run()` has returned or raised. -/
def settle (record : JobRecord) (isLive : Bool) (ledger : LedgerFile) : LedgerFile :=
  if isLive then
    match recordSpend ledger record.usage.estimatedCostUsd with
    | .ok (_, file) => file
    | .error _ => ledger
  else ledger

/-- A ledger whose total is a number. -/
def LedgerFile.Readable (ledger : LedgerFile) : Prop :=
  ∃ before, loadTotalSpend ledger = .ok (.fin before)

/-! ## What a settlement does to the ledger -/

theorem loadTotalSpend_settle {ledger : LedgerFile} {before : PyFloat}
    (hload : loadTotalSpend ledger = .ok before) (record : JobRecord) :
    loadTotalSpend (settle record true ledger) =
      .ok (plus before (max 0 record.usage.estimatedCostUsd)) := by
  have hrecord : recordSpend ledger record.usage.estimatedCostUsd =
      .ok (plus before (max 0 record.usage.estimatedCostUsd),
        some (.ok (.obj [(totalSpendUsd,
          .float (plus before (max 0 record.usage.estimatedCostUsd)))]))) := by
    unfold recordSpend
    rw [hload]
    rfl
  unfold settle
  rw [if_pos rfl, hrecord]
  rfl

section Estimate

variable {R : Type*} {J : JobRunner R}

/-- The estimated cost before and after the tail of `run`. -/
def estimateAt (stage : Stage) (cost : ℚ) : ℚ :=
  match stage with
  | .unfinalized => 0
  | .finalized | .broken | .saved => cost

/-- The estimate is written when the record is finalised, and is then exact. -/
def Estimated (J : JobRunner R) {n : ℕ} (s : State n) : Prop :=
  s.ctx.record.usage.estimatedCostUsd =
    estimateAt s.phase.stage (costUsd J.toWorkerConfig s.ctx.record.usage)

theorem step_estimated {s s' : State J.concurrency} (h : StageTurn J s s')
    (hs : Estimated J s) : Estimated J s' := by
  unfold Estimated at hs ⊢
  cases h with
  | rests hstage hrecord _ =>
    rw [hstage, hrecord]
    exact hs
  | works hstage hstage' _ hestimate _ =>
    rw [hstage] at hs
    rw [hstage', hestimate]
    exact hs
  | finalizes _ hstage' hrecord _ =>
    rw [hstage', hrecord]
    split <;> rfl
  | saves hstage hstage' hrecord _ =>
    rw [hstage] at hs
    rw [hstage', hrecord]
    exact hs

theorem reachable_estimated {s : State J.concurrency} (h : Reachable J s) : Estimated J s :=
  h.invariant (I := Estimated J) (fun _ _ => rfl)
    fun _ _ _ hreach hs ht => step_estimated (step_stage hreach ht) hs

end Estimate

/-- The cost of the tokens that a job counted for the replies it received. -/
def spentUsd {R : Type*} (J : JobRunner R) (actions : List (Action R J.concurrency)) : ℚ :=
  costUsd J.toWorkerConfig
    { inputTokens := (received J.counted actions).1,
      outputTokens := (received J.counted actions).2 }

theorem costUsd_run {R : Type*} {J : JobRunner R} {now wall : ℚ}
    {actions : List (Action R J.concurrency)} {s : State J.concurrency}
    (hrun : Runs.exec (step J) (J.start now wall) actions = some s) :
    costUsd J.toWorkerConfig s.ctx.record.usage = spentUsd J actions := by
  unfold spentUsd
  rw [← run_tokens hrun]
  rfl

end BatchEngine.Core
