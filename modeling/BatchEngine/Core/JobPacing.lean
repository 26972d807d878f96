import BatchEngine.Core.Conservation
import BatchEngine.Core.Timeline
import Mathlib.Tactic.Linarith

/-!
# The request rate of a whole job

Every call of the provider is paid for with a token of the job's one bucket, whichever
worker makes it and however often the item was retried. The credit of a bucket is what it
could hold by now at the greatest rate that the controller can set. Between two moments of
a run the calls are at most the credit at the first and what time adds to it.
-/

set_option autoImplicit false

namespace BatchEngine.Core

open BatchEngine.Providers

variable {R : Type*}

/-! ## The credit of a bucket -/

/-- What the bucket could hold at `now`, had it been refilled at rate `ρ`. -/
def TokenBucket.credit (ρ : ℚ) (b : TokenBucket ℚ) (now : ℚ) : ℚ :=
  min b.capacity (b.tokens + ρ * (now - b.lastRefill))

/-- A bucket and its controller while no rate above `ρ` is ever set. -/
structure AdaptiveController.PacedBy (ρ : ℚ) (c : AdaptiveController) (now : ℚ) : Prop where
  tokens : 0 ≤ c.bucket.tokens
  capacity : 1 ≤ c.bucket.capacity
  refilled : c.bucket.lastRefill ≤ now
  rate_nonneg : 0 ≤ c.bucket.rate
  rate_le : c.bucket.rate ≤ ρ
  floor_le : 1 / 1000000 ≤ ρ
  minRate_le : c.minRate ≤ ρ
  maxRate_le : c.maxRate ≤ ρ
  factor_nonneg : 0 ≤ c.decreaseFactor
  factor_le : c.decreaseFactor ≤ 1

namespace AdaptiveController.PacedBy

variable {ρ now : ℚ} {c : AdaptiveController}

theorem bound_nonneg (h : c.PacedBy ρ now) : 0 ≤ ρ := h.rate_nonneg.trans h.rate_le

theorem elapsed_nonneg (h : c.PacedBy ρ now) : 0 ≤ now - c.bucket.lastRefill :=
  sub_nonneg.mpr h.refilled

theorem credit_nonneg (h : c.PacedBy ρ now) : 0 ≤ c.bucket.credit ρ now := by
  have hgain : 0 ≤ ρ * (now - c.bucket.lastRefill) := mul_nonneg h.bound_nonneg h.elapsed_nonneg
  have hcapacity := h.capacity
  apply le_min
  · linarith
  · linarith [h.tokens]

/-- Time adds at most `ρ` a second. -/
theorem credit_tick (h : c.PacedBy ρ now) {dt : ℚ} (hdt : 0 ≤ dt) :
    c.bucket.credit ρ (now + dt) ≤ c.bucket.credit ρ now + ρ * dt := by
  have hadded : 0 ≤ ρ * dt := mul_nonneg h.bound_nonneg hdt
  unfold TokenBucket.credit
  rw [← min_add_add_right]
  apply le_min
  · exact (min_le_left _ _).trans (le_add_of_nonneg_right hadded)
  · apply (min_le_right _ _).trans
    apply le_of_eq
    ring

/-- A refill credits at the rate in force, so at most at `ρ`. -/
theorem refill_tokens (h : c.PacedBy ρ now) :
    0 ≤ (c.bucket.refill now).tokens ∧ (c.bucket.refill now).tokens ≤ c.bucket.credit ρ now := by
  have helapsed := h.elapsed_nonneg
  have hgain : 0 ≤ (now - c.bucket.lastRefill) * c.bucket.rate :=
    mul_nonneg helapsed h.rate_nonneg
  have hrate : (now - c.bucket.lastRefill) * c.bucket.rate ≤ ρ * (now - c.bucket.lastRefill) := by
    rw [mul_comm]
    exact mul_le_mul_of_nonneg_right h.rate_le helapsed
  have htokens : (c.bucket.refill now).tokens =
      min c.bucket.capacity (c.bucket.tokens + (now - c.bucket.lastRefill) * c.bucket.rate) := by
    simp only [TokenBucket.refill, max_eq_right helapsed]
  rw [htokens]
  have hcapacity := h.capacity
  constructor
  · apply le_min
    · linarith
    · linarith [h.tokens]
  · exact min_le_min_left _ (by linarith)

/-- Just refilled, a bucket has no credit beyond its tokens. -/
theorem credit_le_tokens {b : TokenBucket ℚ} (hnow : b.lastRefill = now) :
    b.credit ρ now ≤ b.tokens := by
  unfold TokenBucket.credit
  rw [hnow, sub_self, mul_zero, add_zero]
  exact min_le_right _ _

end AdaptiveController.PacedBy

/-! ## What a turn costs -/

/-- The calls that `ctx'` has made beyond those of `ctx` are paid for out of the credit. -/
structure Pays (ρ : ℚ) (ctx ctx' : WorkerContext) : Prop where
  now : ctx'.now = ctx.now
  paced : ctx.controller.PacedBy ρ ctx.now → ctx'.controller.PacedBy ρ ctx.now
  spent : ctx.controller.PacedBy ρ ctx.now →
    (ctx'.calls.length : ℚ) + ctx'.controller.bucket.credit ρ ctx.now ≤
      ctx.calls.length + ctx.controller.bucket.credit ρ ctx.now

theorem pays_of_eq {ρ : ℚ} {ctx ctx' : WorkerContext} (hnow : ctx'.now = ctx.now)
    (hcontroller : ctx'.controller = ctx.controller) (hcalls : ctx'.calls = ctx.calls) :
    Pays ρ ctx ctx' where
  now := hnow
  paced h := hcontroller ▸ h
  spent _ := by rw [hcontroller, hcalls]

theorem pays_refl (ρ : ℚ) (ctx : WorkerContext) : Pays ρ ctx ctx := pays_of_eq rfl rfl rfl

theorem Pays.trans {ρ : ℚ} {a b c : WorkerContext} (h : Pays ρ a b) (h' : Pays ρ b c) :
    Pays ρ a c where
  now := h'.now.trans h.now
  paced ha := by
    have hb := h.paced ha
    rw [← h.now] at hb ⊢
    exact h'.paced hb
  spent ha := by
    have hb := h.paced ha
    have hfirst := h.spent ha
    rw [← h.now] at hb hfirst ⊢
    exact (h'.spent hb).trans hfirst

/-- A bucket that was refilled, and its rate perhaps set anew. -/
theorem pays_of_refilled {ρ : ℚ} {ctx ctx' : WorkerContext} (hnow : ctx'.now = ctx.now)
    (hcalls : ctx'.calls = ctx.calls)
    (htokens : ctx'.controller.bucket.tokens = (ctx.controller.bucket.refill ctx.now).tokens)
    (hrefill : ctx'.controller.bucket.lastRefill = ctx.now)
    (hcapacity : ctx'.controller.bucket.capacity = ctx.controller.bucket.capacity)
    (hmin : ctx'.controller.minRate = ctx.controller.minRate)
    (hmax : ctx'.controller.maxRate = ctx.controller.maxRate)
    (hfactor : ctx'.controller.decreaseFactor = ctx.controller.decreaseFactor)
    (hrate : ctx.controller.PacedBy ρ ctx.now →
      0 ≤ ctx'.controller.bucket.rate ∧ ctx'.controller.bucket.rate ≤ ρ) : Pays ρ ctx ctx' where
  now := hnow
  paced h :=
    { tokens := htokens ▸ h.refill_tokens.1
      capacity := hcapacity ▸ h.capacity
      refilled := hrefill.le
      rate_nonneg := (hrate h).1
      rate_le := (hrate h).2
      floor_le := h.floor_le
      minRate_le := hmin ▸ h.minRate_le
      maxRate_le := hmax ▸ h.maxRate_le
      factor_nonneg := hfactor ▸ h.factor_nonneg
      factor_le := hfactor ▸ h.factor_le }
  spent h := by
    have hcredit := AdaptiveController.PacedBy.credit_le_tokens (ρ := ρ) hrefill
    rw [htokens] at hcredit
    rw [hcalls]
    linarith [h.refill_tokens.2]

/-- A token pays for a call. -/
theorem pays_startCall {ρ : ℚ} {ctx : WorkerContext} {h : InHand} {bucket : TokenBucket ℚ}
    (hgrant : ctx.controller.bucket.acquire ctx.now = (none, bucket)) :
    Pays ρ ctx (startCall (ctx.withBucket bucket) h).1 := by
  rcases TokenBucket.acquire_cases ctx.controller.bucket ctx.now with ⟨hone, hacquire⟩ | ⟨_, hacquire⟩
  · rw [hacquire] at hgrant
    obtain ⟨-, rfl⟩ := Prod.mk.inj hgrant
    refine ⟨rfl, fun hpaced => ?_, fun hpaced => ?_⟩
    · exact { hpaced with
        tokens := sub_nonneg.mpr hone
        refilled := le_rfl }
    · have hcredit := AdaptiveController.PacedBy.credit_le_tokens (ρ := ρ)
        (b := { ctx.controller.bucket.refill ctx.now with
          tokens := (ctx.controller.bucket.refill ctx.now).tokens - 1 })
        (show _ = ctx.now from rfl)
      simp only [startCall, WorkerContext.withBucket, List.length_append, List.length_singleton]
      push_cast
      linarith [hpaced.refill_tokens.2]
  · rw [hacquire] at hgrant
    cases hgrant

theorem pays_acquirePass (ρ : ℚ) (ctx : WorkerContext) (h : InHand) :
    Pays ρ ctx (acquirePass ctx h).1 := by
  have hbranch := acquirePass_branch ctx h
  generalize acquirePass ctx h = next at hbranch ⊢
  cases hbranch with
  | granted hgrant => exact pays_startCall hgrant
  | @waits waitS bucket hwait =>
    rcases TokenBucket.acquire_cases ctx.controller.bucket ctx.now with ⟨_, hacquire⟩ | ⟨_, hacquire⟩
    · rw [hacquire] at hwait
      cases hwait
    · rw [hacquire] at hwait
      obtain ⟨-, rfl⟩ := Prod.mk.inj hwait
      exact pays_of_refilled rfl rfl rfl rfl rfl rfl rfl rfl fun hp => ⟨hp.rate_nonneg, hp.rate_le⟩

theorem pays_loopTop (ρ : ℚ) (ctx : WorkerContext) (h : InHand) :
    Pays ρ ctx (loopTop ctx h).1 := by
  have hbranch := loopTop_branch ctx h
  generalize loopTop ctx h = next at hbranch ⊢
  cases hbranch with
  | allowed _ _ _ =>
    have hasked : Pays ρ ctx (ctx.withBreaker (ctx.circuitBreaker.allowRequest ctx.now).2) :=
      pays_of_eq rfl rfl rfl
    exact hasked.trans (pays_acquirePass ρ _ _)
  | _ => exact pays_of_eq rfl rfl rfl

theorem pays_takeItem (ρ : ℚ) (ctx : WorkerContext) (x : Queued) :
    Pays ρ ctx (takeItem ctx x).1 := by
  match x with
  | .shutdown => exact pays_of_eq rfl rfl rfl
  | .ticket ⟨_, .error _⟩ => exact pays_of_eq rfl rfl rfl
  | .ticket ⟨seq, .item p⟩ => exact pays_loopTop ρ ctx ⟨seq, p, 0⟩

theorem pays_recordSuccess (ρ : ℚ) (ctx : WorkerContext) :
    Pays ρ ctx (ctx.withController (ctx.controller.recordSuccess ctx.now)) := by
  by_cases hstreak : ctx.controller.successStreakForIncrease ≤ ctx.controller.consecutiveSuccesses + 1
  · have hset : ctx.controller.recordSuccess ctx.now =
        { ctx.controller with
          bucket := ctx.controller.bucket.setRate ctx.now
            (min ctx.controller.maxRate (ctx.controller.bucket.rate + ctx.controller.increaseStep))
          consecutiveSuccesses := 0 } := if_pos hstreak
    rw [hset]
    refine pays_of_refilled rfl rfl rfl rfl rfl rfl rfl rfl fun hp => ⟨?_, ?_⟩
    · exact le_max_of_le_right (by norm_num)
    · exact max_le ((min_le_left _ _).trans hp.maxRate_le) hp.floor_le
  · have hkept : ctx.controller.recordSuccess ctx.now =
        { ctx.controller with
          consecutiveSuccesses := ctx.controller.consecutiveSuccesses + 1 } := if_neg hstreak
    rw [hkept]
    exact ⟨rfl, fun hp => { hp with }, fun _ => le_rfl⟩

theorem pays_recordThrottle (ρ : ℚ) (ctx : WorkerContext) :
    Pays ρ ctx (ctx.withController (ctx.controller.recordThrottle ctx.now)) := by
  by_cases hcooled : ctx.controller.cooled ctx.now = true
  · have hset : ctx.controller.recordThrottle ctx.now =
        { ctx.controller with
          throttleEvents429 := ctx.controller.throttleEvents429 + 1
          consecutiveSuccesses := 0
          bucket := ctx.controller.bucket.setRate ctx.now
            (max ctx.controller.minRate
              (ctx.controller.bucket.rate * ctx.controller.decreaseFactor))
          lastDecreaseAt := some ctx.now } := if_pos hcooled
    rw [hset]
    refine pays_of_refilled rfl rfl rfl rfl rfl rfl rfl rfl fun hp => ⟨?_, ?_⟩
    · exact le_max_of_le_right (by norm_num)
    · have hcut : ctx.controller.bucket.rate * ctx.controller.decreaseFactor ≤ ρ :=
        (mul_le_of_le_one_right hp.rate_nonneg hp.factor_le).trans hp.rate_le
      exact max_le (max_le hp.minRate_le hcut) hp.floor_le
  · have hkept : ctx.controller.recordThrottle ctx.now =
        { ctx.controller with
          throttleEvents429 := ctx.controller.throttleEvents429 + 1
          consecutiveSuccesses := 0 } := if_neg hcooled
    rw [hkept]
    exact ⟨rfl, fun hp => { hp with }, fun _ => le_rfl⟩

theorem pays_onSpendCheck (ρ : ℚ) (W : WorkerConfig R) (ctx : WorkerContext) :
    Pays ρ ctx (onSpendCheck W ctx) := by
  unfold onSpendCheck
  split <;> exact pays_of_eq rfl rfl rfl

theorem pays_retryOrFail (ρ : ℚ) (W : WorkerConfig R) (ctx : WorkerContext) (h : InHand)
    (f : Failure) (u : ℚ) : Pays ρ ctx (retryOrFail W ctx h f u).1 := by
  have hbranch := retryOrFail_branch W ctx h f u
  generalize retryOrFail W ctx h f u = next at hbranch ⊢
  cases hbranch with
  | retried _ _ => exact ⟨rfl, fun hp => { hp with }, fun _ => le_rfl⟩
  | _ => exact pays_of_eq rfl rfl rfl

theorem pays_afterFailure (ρ : ℚ) (W : WorkerConfig R) (ctx : WorkerContext) (h : InHand)
    (outcome : Outcome) (f : Failure) (u : ℚ) :
    Pays ρ ctx (afterFailure W ctx h outcome f u).1 := by
  have hthrottle := pays_recordThrottle ρ ctx
  have hbranch := afterFailure_branch W ctx h outcome f u
  generalize afterFailure W ctx h outcome f u = next at hbranch ⊢
  cases hbranch with
  | fatal _ => exact pays_of_eq rfl rfl rfl
  | throttled _ _ => exact hthrottle.trans (pays_retryOrFail ρ W _ h f u)
  | failed _ _ => exact pays_retryOrFail ρ W ctx h f u
  | _ => exact hthrottle

theorem pays_callBranch (ρ : ℚ) {W : WorkerConfig R} {ctx : WorkerContext} {h : InHand}
    {start u : ℚ} {r : R} {raises : Bool} {next : Next}
    (hcall : CallBranch W ctx h start r u raises next) : Pays ρ ctx next.1 := by
  have hsuccess := pays_recordSuccess ρ ctx
  cases hcall with
  | @succeeded resp _ _ =>
    have hemitted : Pays ρ ctx (emitSuccess ctx h resp start) := hsuccess.trans (pays_of_eq rfl rfl rfl)
    exact (hemitted.trans (pays_onSpendCheck ρ W _)).trans (pays_of_eq rfl rfl rfl)
  | @raised resp _ _ _ => exact hsuccess.trans (pays_of_eq rfl rfl rfl)
  | failed _ =>
    have hrecorded : Pays ρ ctx
        (recordOutcome ctx (classify (outcomeOf (W.provider.complete r))).1) :=
      pays_of_eq rfl rfl rfl
    exact hrecorded.trans (pays_afterFailure ρ W _ h _ _ u)

/-- Whatever a worker does in a turn, it pays for the call that it starts. -/
theorem pays_workerStep (ρ : ℚ) {W : WorkerConfig R} {ctx : WorkerContext} {ws : WorkerState}
    {input : WorkerInput R} {next : Next} (hstep : workerStep W ctx ws input = some next) :
    Pays ρ ctx next.1 := by
  cases workerStep_branch hstep with
  | @took x q _ =>
    have htaken : Pays ρ ctx (ctx.withQueue q) := pays_of_eq rfl rfl rfl
    exact htaken.trans (pays_takeItem ρ (ctx.withQueue q) x)
  | asked _ => exact pays_loopTop ρ ctx _
  | acquired _ => exact pays_acquirePass ρ ctx _
  | replied _ hcall => exact pays_callBranch ρ hcall
  | jittered _ _ => exact pays_refl ρ ctx
  | resumed _ _ => exact pays_retryOrFail ρ W ctx _ _ _
  | looped _ => exact pays_loopTop ρ ctx _

/-! ## The calls of a run -/

section Job

variable {J : JobRunner R}

/-- The greatest rate that the controller of this job can set. -/
def JobRunner.topRate (J : JobRunner R) : ℚ := max (1 / 20) (rateRps J.rateLimitRpm * (3 / 2))

theorem start_paced (J : JobRunner R) (now wall : ℚ) :
    (J.start now wall).ctx.controller.PacedBy J.topRate now := by
  have hrps : 0 ≤ rateRps J.rateLimitRpm := div_nonneg (Nat.cast_nonneg _) (by norm_num)
  have hbase : (1 / 20 : ℚ) ≤ J.topRate := le_max_left _ _
  have htop : rateRps J.rateLimitRpm * (3 / 2) ≤ J.topRate := le_max_right _ _
  have htwo : (2 : ℚ) ≤ max 2 (rateRps J.rateLimitRpm) := le_max_left _ _
  exact {
    tokens := zero_le_two.trans htwo
    capacity := one_le_two.trans htwo
    refilled := le_rfl
    rate_nonneg := hrps
    rate_le := (le_mul_of_one_le_right hrps (by norm_num)).trans htop
    floor_le := le_trans (by norm_num) hbase
    minRate_le := max_le hbase ((mul_le_mul_of_nonneg_left (by norm_num) hrps).trans htop)
    maxRate_le := htop
    factor_nonneg := by norm_num [JobRunner.start]
    factor_le := by norm_num [JobRunner.start] }

/-- The job is paced after the step, and the step's calls are paid for. -/
structure PaidStep (ρ : ℚ) (ctx ctx' : WorkerContext) : Prop where
  paced : ctx'.controller.PacedBy ρ ctx'.now
  spent : (ctx'.calls.length : ℚ) + ctx'.controller.bucket.credit ρ ctx'.now ≤
    ctx.calls.length + ctx.controller.bucket.credit ρ ctx.now + ρ * (ctx'.now - ctx.now)

theorem Pays.paid {ρ : ℚ} {ctx ctx' : WorkerContext} (h : Pays ρ ctx ctx')
    (hctx : ctx.controller.PacedBy ρ ctx.now) : PaidStep ρ ctx ctx' where
  paced := by
    rw [h.now]
    exact h.paced hctx
  spent := by
    rw [h.now, sub_self, mul_zero, add_zero]
    exact h.spent hctx

theorem paid_of_eq {ρ : ℚ} {ctx ctx' : WorkerContext} (hctx : ctx.controller.PacedBy ρ ctx.now)
    (hnow : ctx'.now = ctx.now) (hcontroller : ctx'.controller = ctx.controller)
    (hcalls : ctx'.calls = ctx.calls) : PaidStep ρ ctx ctx' :=
  (pays_of_eq hnow hcontroller hcalls).paid hctx

theorem step_paid {s s' : State J.concurrency} {a : Action R J.concurrency}
    (hs : s.ctx.controller.PacedBy J.topRate s.ctx.now) (h : step J s a = some s') :
    PaidStep J.topRate s.ctx s'.ctx := by
  cases a with
  | worker i input =>
    obtain ⟨⟨ctx', ws'⟩, hworker, rfl⟩ := Option.map_eq_some_iff.mp h
    exact (pays_workerStep J.topRate hworker).paid hs
  | tick dt wall =>
    cases step_turn h with
    | tick hdt =>
      refine ⟨{ hs with refilled := hs.refilled.trans (le_add_of_nonneg_right hdt) }, ?_⟩
      have hcredit := hs.credit_tick hdt
      simp only [add_sub_cancel_left]
      linarith
  | cancel => cases step_turn h; exact paid_of_eq hs rfl rfl rfl
  | runner raises => cases step_turn h <;> exact paid_of_eq hs rfl rfl rfl
  | writer => cases step_turn h; exact paid_of_eq hs rfl rfl rfl
  | writerTimeout => cases step_turn h; exact paid_of_eq hs rfl rfl rfl

theorem reachable_paced {s : State J.concurrency} (h : Reachable J s) :
    s.ctx.controller.PacedBy J.topRate s.ctx.now :=
  h.step_invariant (I := fun s => s.ctx.controller.PacedBy J.topRate s.ctx.now)
    (start_paced J) fun _ _ _ _ hs ht => (step_paid hs ht).paced

/-- Over a run the calls and the credit left are at most the credit at its start and what
the time of the run adds. -/
theorem run_spends {actions : List (Action R J.concurrency)} {s s' : State J.concurrency}
    (h : Reachable J s) (hrun : Runs.exec (step J) s actions = some s') :
    (s'.ctx.calls.length : ℚ) + s'.ctx.controller.bucket.credit J.topRate s'.ctx.now ≤
      s.ctx.calls.length + s.ctx.controller.bucket.credit J.topRate s.ctx.now +
        J.topRate * (s'.ctx.now - s.ctx.now) := by
  induction actions generalizing s with
  | nil =>
    obtain rfl := Option.some.inj hrun
    linarith
  | cons a actions ih =>
    obtain ⟨t, ht, hrest⟩ := Runs.exec_cons_iff.mp hrun
    have hfirst := (step_paid (reachable_paced h) ht).spent
    have hlater := ih (h.step ht) hrest
    linarith

theorem reachable_capacity {s : State J.concurrency} (h : Reachable J s) :
    s.ctx.controller.bucket.capacity = max 2 (rateRps J.rateLimitRpm) := by
  refine h.invariant
    (I := fun s => s.ctx.controller.bucket.capacity = max 2 (rateRps J.rateLimitRpm)) ?_ ?_
  · exact fun now wall => rfl
  · intro s a s' _ hs ht
    cases ht with
    | worker _ hdoes => exact hdoes.capacity.trans hs
    | _ => exact hs

/-- Between any two moments of a run, all workers together start at most a bucketful of
calls and what the greatest rate allows for the time between. -/
theorem calls_paced {actions : List (Action R J.concurrency)} {s s' : State J.concurrency}
    (h : Reachable J s) (hrun : Runs.exec (step J) s actions = some s') :
    ∃ made : List Call, s'.ctx.calls = s.ctx.calls ++ made ∧
      (made.length : ℚ) ≤ max 2 (rateRps J.rateLimitRpm) +
        max (1 / 20) (rateRps J.rateLimitRpm * (3 / 2)) * (s'.ctx.now - s.ctx.now) := by
  have hcalls : ∃ made, s'.ctx.calls = s.ctx.calls ++ made := by
    refine Runs.exec_rel
      (R := fun s s' : State J.concurrency => ∃ made, s'.ctx.calls = s.ctx.calls ++ made)
      (fun s => ⟨[], (List.append_nil _).symm⟩) ?_ ?_ hrun
    · rintro s t u ⟨made, ht⟩ ⟨more, hu⟩
      exact ⟨made ++ more, by rw [hu, ht, List.append_assoc]⟩
    · intro s a t ht
      cases step_turn ht with
      | @worker _ _ _ _ e _ hdoes => exact ⟨e.calls, hdoes.calls⟩
      | _ => exact ⟨[], (List.append_nil _).symm⟩
  obtain ⟨made, hmade⟩ := hcalls
  refine ⟨made, hmade, ?_⟩
  have hspent := run_spends h hrun
  have hcredit : s.ctx.controller.bucket.credit J.topRate s.ctx.now ≤
      max 2 (rateRps J.rateLimitRpm) := by
    rw [← reachable_capacity h]
    exact min_le_left _ _
  have hleft := (reachable_paced (h.exec hrun)).credit_nonneg
  rw [hmade, List.length_append] at hspent
  push_cast at hspent
  show (made.length : ℚ) ≤ max 2 (rateRps J.rateLimitRpm) + J.topRate * (s'.ctx.now - s.ctx.now)
  linarith

/-- Two workers at two requests a second, with a bucket of two: no more than two calls at
once. -/
theorem calls_paced_twoRows : ∃ made : List Call, twoRowsDrained.ctx.calls = [] ++ made ∧
    (made.length : ℚ) ≤ max 2 (rateRps 120) +
      max (1 / 20) (rateRps 120 * (3 / 2)) * (twoRowsDrained.ctx.now - 0) :=
  calls_paced (reachable_start twoRows 0 0)
    (show Runs.exec (step twoRows) (twoRows.start 0 0) twoRowsRun = some twoRowsDrained from
      (Option.some_get _).symm)

end Job

end BatchEngine.Core
