import BatchEngine.Core.ItemCap
import BatchEngine.Core.SpendLedger

/-!
# What a job can cost at most

Each ingested entry comes to at most one success row, whatever the spend checks do, and
the item cap bounds the entries. So limits on what one answer reports bound the bill.
-/

set_option autoImplicit false

namespace BatchEngine.Core

open BatchEngine.Providers

variable {R : Type*} {J : JobRunner R}

/-- What one answer reports at most. -/
structure TokenLimits where
  input : ℕ
  output : ℕ

def UsageDelta.Within (u : UsageDelta) (limits : TokenLimits) : Prop :=
  (0 ≤ u.inputTokens ∧ u.inputTokens ≤ limits.input) ∧
    (0 ≤ u.outputTokens ∧ u.outputTokens ≤ limits.output)

instance (u : UsageDelta) (limits : TokenLimits) : Decidable (u.Within limits) :=
  inferInstanceAs (Decidable (_ ∧ _))

/-- The tokens that are counted for the replies of this action are within the limits. -/
def Action.Within {n : ℕ} (W : WorkerConfig R) (limits : TokenLimits) : Action R n → Prop
  | .worker _ (.reply r _ _) => (W.counted r).Within limits
  | _ => True

instance {n : ℕ} (W : WorkerConfig R) (limits : TokenLimits) :
    (a : Action R n) → Decidable (a.Within W limits)
  | .worker _ (.reply r _ _) => inferInstanceAs (Decidable ((W.counted r).Within limits))
  | .worker _ .take | .worker _ (.wake _) | .tick _ _ | .cancel | .runner _ | .writer
  | .writerTimeout => .isTrue trivial

/-! ## The success rows -/

/-- Each row of the sink bills what some answer reported, or nothing. -/
def RowsWithin (limits : TokenLimits) (rows : List Row) : Prop :=
  ∀ row ∈ rows, row.usage.Within limits

theorem within_zero (limits : TokenLimits) : ({} : UsageDelta).Within limits :=
  ⟨⟨le_rfl, Int.natCast_nonneg _⟩, ⟨le_rfl, Int.natCast_nonneg _⟩⟩

theorem loopTurn_within {limits : TokenLimits} {ctx : WorkerContext} {h : InHand}
    {ws' : WorkerState} {e : Effect} (hturn : LoopTurn ctx h ws' e) : RowsWithin limits e.rows := by
  cases hturn with
  | stopped => exact List.forall_mem_singleton.mpr (within_zero limits)
  | _ => exact List.forall_mem_nil _

theorem retryTurn_within {limits : TokenLimits} {h : InHand} {ws' : WorkerState} {e : Effect}
    (hturn : RetryTurn h ws' e) : RowsWithin limits e.rows := by
  cases hturn with
  | gaveUp _ => exact List.forall_mem_singleton.mpr (within_zero limits)
  | retried _ => exact List.forall_mem_nil _

theorem callTurn_within {limits : TokenLimits} {W : WorkerConfig R} {ctx' : WorkerContext}
    {h : InHand} {r : R} {raises : Bool} {ws' : WorkerState} {e : Effect}
    (hturn : CallTurn W ctx' h (outcomeOf (W.provider.complete r)) raises ws' e)
    (hr : (W.counted r).Within limits) : RowsWithin limits e.rows := by
  cases hturn with
  | succeeded hresp hclass =>
    rw [counted_of_success hresp hclass] at hr
    exact List.forall_mem_singleton.mpr hr
  | raised hresp hclass _ =>
    rw [counted_of_success hresp hclass] at hr
    exact List.forall_mem_cons.mpr ⟨hr, List.forall_mem_singleton.mpr (within_zero limits)⟩
  | fatal _ _ => exact List.forall_mem_singleton.mpr (within_zero limits)
  | paused _ => exact List.forall_mem_nil _
  | jittered _ => exact List.forall_mem_nil _
  | failed _ _ hretry => exact retryTurn_within hretry

theorem turn_within {limits : TokenLimits} {W : WorkerConfig R} {ctx ctx' : WorkerContext}
    {ws ws' : WorkerState} {n : ℕ} {i : Fin n} {input : WorkerInput R} {e : Effect}
    (hturn : Turn W ctx ctx' ws input ws' e)
    (ha : (Action.worker i input).Within W limits) : RowsWithin limits e.rows := by
  cases hturn with
  | passed => exact List.forall_mem_singleton.mpr (within_zero limits)
  | taken hloop =>
    have hwithin : RowsWithin limits _ := loopTurn_within hloop
    exact hwithin
  | asked hloop => exact loopTurn_within hloop
  | looped hloop => exact loopTurn_within hloop
  | replied hcall =>
    have hwithin := callTurn_within hcall ha
    exact hwithin
  | resumed hretry => exact retryTurn_within hretry
  | _ => exact List.forall_mem_nil _

theorem step_within {limits : TokenLimits} {s s' : State J.concurrency}
    {a : Action R J.concurrency} (h : JobTurn J s a s') (ha : a.Within J.toWorkerConfig limits)
    (hs : RowsWithin limits s.ctx.sink.submitted) : RowsWithin limits s'.ctx.sink.submitted := by
  cases h with
  | wrote hsink =>
    rw [ResultSink.submitted_writerStep hsink]
    exact hs
  | timedOut hsink =>
    rw [ResultSink.submitted_writerTimeout hsink]
    exact hs
  | worker hturn hdoes =>
    rw [hdoes.submitted]
    exact List.forall_mem_append.mpr ⟨hs, turn_within hturn ha⟩
  | gathered _ _ =>
    rw [ResultSink.submitted_close]
    exact hs
  | _ => exact hs

/-- What has been settled successfully and what is unresolved was ingested. -/
theorem succeeded_le {s : State J.concurrency} (h : Reachable J s) :
    s.ctx.record.counts.succeeded + (unresolved s).card ≤ s.ctx.record.counts.ingested := by
  have hrows : s.ctx.sink.submitted.countP Row.isResult + (unresolved s).card ≤
      s.ctx.record.counts.ingested := by
    refine h.invariant (I := fun s => s.ctx.sink.submitted.countP Row.isResult +
      (unresolved s).card ≤ s.ctx.record.counts.ingested) ?_ ?_
    · intro now wall
      rw [unresolved_start]
      exact le_rfl
    · intro s a s' _ hs ht
      have hcustody := step_custody ht
      generalize a.raisesInCheck = raises at hcustody
      cases hcustody with
      | @settled out rows hsettles hsubmitted hunresolved hingested =>
        have hresults : rows.countP Row.isResult ≤ out.card := by
          cases hsettles with
          | keeps => exact le_rfl
          | once _ => exact List.countP_le_length
          | @twice t row e _ _ =>
            show [row, .error e].countP Row.isResult ≤ 1
            cases row <;> exact Nat.le_of_ble_eq_true rfl
        rw [hunresolved, Multiset.card_add] at hs
        rw [hsubmitted, List.countP_append, hingested]
        omega
      | admitted _ _ _ hsubmitted hunresolved hingested =>
        rw [hsubmitted, hunresolved, hingested, Multiset.card_cons]
        omega
  rwa [← (reachable_tallied h).succeeded] at hrows

/-! ## The entries -/

/-- The loop ingests one entry more than the cap allows only when the cap is zero. -/
theorem ingested_le {m : ℕ} (hmax : J.config.maxItems = some m) {now wall : ℚ}
    {actions : List (Action R J.concurrency)} {s : State J.concurrency}
    (hrun : Runs.exec (step J) (J.start now wall) actions = some s) :
    s.ctx.record.counts.ingested ≤ max 1 m := by
  obtain ⟨entries, hhistory⟩ : ∃ entries, Runs.exec (Runs.withHistory (step J) dispatched)
      (J.start now wall, []) actions = some (s, entries) := Runs.exec_withHistory [] hrun
  have hkept : Progress J s entries ∧ s.ctx.record.counts.ingested ≤ max 1 m := by
    refine Runs.exec_invariant' (I := fun p : State J.concurrency × List Entry =>
      Progress J p.1 p.2 ∧ p.1.ctx.record.counts.ingested ≤ max 1 m) ?_ ?_ hhistory
    · rintro ⟨s, entries⟩ a ⟨s', entries'⟩ ⟨hs, hle⟩ hq
      obtain ⟨hstep, hhist⟩ := Runs.withHistory_some.mp hq
      refine ⟨hhist ▸ progress_step hs hstep, ?_⟩
      cases step_turn hstep with
      | worker hturn hdoes =>
        rw [hdoes.record]
        exact (settles_ingested _ _).trans_le hle
      | ingested hphase hrest =>
        unfold Progress at hs
        rw [hphase] at hs
        have hingested : s.ctx.record.counts.ingested = entries.length := hs.2.1
        have hlt : entries.length < max 1 m := hs.2.2 m hmax
        show s.ctx.record.counts.ingested + 1 ≤ max 1 m
        omega
      | _ => exact hle
    · exact ⟨⟨rfl, rfl, room_nil _⟩, Nat.zero_le _⟩
  exact hkept.2

/-! ## The bill -/

theorem sum_tokens_le {limits : TokenLimits} {rows : List Row} (h : RowsWithin limits rows) :
    (0 ≤ (rows.map fun row => row.usage.inputTokens).sum ∧
        (rows.map fun row => row.usage.inputTokens).sum ≤
          (rows.countP Row.isResult : ℤ) * limits.input) ∧
      (0 ≤ (rows.map fun row => row.usage.outputTokens).sum ∧
        (rows.map fun row => row.usage.outputTokens).sum ≤
          (rows.countP Row.isResult : ℤ) * limits.output) := by
  induction rows with
  | nil => simp
  | cons row rows ih =>
    obtain ⟨hrow, hrows⟩ := List.forall_mem_cons.mp h
    have hrest := ih hrows
    obtain ⟨hin, hout⟩ := hrow
    rw [List.map_cons, List.sum_cons, List.map_cons, List.sum_cons]
    cases row with
    | result r =>
      have hcount : (Row.result r :: rows).countP Row.isResult = rows.countP Row.isResult + 1 :=
        List.countP_cons_of_pos rfl
      rw [hcount]
      push_cast
      rw [add_mul, add_mul, one_mul, one_mul]
      omega
    | error e =>
      have hcount : (Row.error e :: rows).countP Row.isResult = rows.countP Row.isResult :=
        List.countP_cons_of_neg Bool.false_ne_true
      rw [hcount]
      show (0 ≤ 0 + _ ∧ 0 + _ ≤ _) ∧ (0 ≤ 0 + _ ∧ 0 + _ ≤ _)
      simp only [zero_add]
      exact hrest

/-- The most that a job of at most `m` rows can come to. -/
def worstCost (W : WorkerConfig R) (limits : TokenLimits) (m : ℕ) : ℚ :=
  costUsd W { inputTokens := m * limits.input, outputTokens := m * limits.output }

theorem costUsd_mono {W : WorkerConfig R} (hin : 0 ≤ W.provider.costPer1mInput)
    (hout : 0 ≤ W.provider.costPer1mOutput) {u v : UsageTotals}
    (hinput : u.inputTokens ≤ v.inputTokens) (houtput : u.outputTokens ≤ v.outputTokens) :
    costUsd W u ≤ costUsd W v := by
  unfold costUsd
  have hinput' : (u.inputTokens : ℚ) ≤ v.inputTokens := Int.cast_le.mpr hinput
  have houtput' : (u.outputTokens : ℚ) ≤ v.outputTokens := Int.cast_le.mpr houtput
  gcongr

theorem worstCost_nonneg {W : WorkerConfig R} (hin : 0 ≤ W.provider.costPer1mInput)
    (hout : 0 ≤ W.provider.costPer1mOutput) (limits : TokenLimits) (m : ℕ) :
    0 ≤ worstCost W limits m := by
  unfold worstCost costUsd
  push_cast
  positivity

/-- A job with an item cap whose answers report within the limits costs at most its worst
case. -/
theorem costUsd_le_worst (hin : 0 ≤ J.provider.costPer1mInput)
    (hout : 0 ≤ J.provider.costPer1mOutput) {m : ℕ} (hmax : J.config.maxItems = some m)
    {limits : TokenLimits} {now wall : ℚ} {actions : List (Action R J.concurrency)}
    {s : State J.concurrency} (hrun : Runs.exec (step J) (J.start now wall) actions = some s)
    (hwithin : ∀ a ∈ actions, a.Within J.toWorkerConfig limits) :
    costUsd J.toWorkerConfig s.ctx.record.usage ≤
      worstCost J.toWorkerConfig limits (max 1 m) := by
  have hreach : Reachable J s := ⟨now, wall, actions, hrun⟩
  have hstart : RowsWithin limits (J.start now wall).ctx.sink.submitted := List.forall_mem_nil _
  have hrows : RowsWithin limits s.ctx.sink.submitted := by
    refine Runs.exec_invariant (P := fun a => a.Within J.toWorkerConfig limits)
      (I := fun s : State J.concurrency => RowsWithin limits s.ctx.sink.submitted) ?_ hwithin
      hstart hrun
    exact fun s a t ha hs ht => step_within (step_turn ht) ha hs
  have htally := reachable_tallied hreach
  obtain ⟨⟨-, hinput⟩, ⟨-, houtput⟩⟩ := sum_tokens_le hrows
  have hcount : s.ctx.sink.submitted.countP Row.isResult ≤ max 1 m := by
    rw [← htally.succeeded]
    exact (Nat.le_add_right _ _).trans ((succeeded_le hreach).trans (ingested_le hmax hrun))
  have hcount' : (s.ctx.sink.submitted.countP Row.isResult : ℤ) ≤ (max 1 m : ℕ) :=
    Int.ofNat_le.mpr hcount
  refine costUsd_mono hin hout ?_ ?_
  · rw [htally.inputTokens]
    exact hinput.trans (mul_le_mul_of_nonneg_right hcount' (Int.natCast_nonneg _))
  · rw [htally.outputTokens]
    exact houtput.trans (mul_le_mul_of_nonneg_right hcount' (Int.natCast_nonneg _))

end BatchEngine.Core
