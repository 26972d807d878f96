import BatchEngine.Core.JobPacing
import BatchEngine.Core.Lead
import BatchEngine.Core.Work
import Mathlib.Tactic.FieldSimp
import Mathlib.Tactic.Linarith

/-!
# Every job can be brought to its end

No party of a job is ever stuck on another one: wherever a job has come to, whatever the
provider goes on to answer, some schedule of its parties takes it to the end. The one
exception is a worker that sleeps for ever, after a 429 whose reset header reads infinity.
-/

set_option autoImplicit false

namespace BatchEngine.Core

open BatchEngine.Providers

variable {R : Type*}

/-- The worker sits out a reset that never comes. -/
def WorkerState.endless : WorkerState → Bool
  | .resetWait _ none _ => true
  | _ => false

/-- The answer announces no infinite reset. -/
def FiniteReset (W : WorkerConfig R) (r : R) : Prop :=
  resetEpoch (outcomeOf (W.provider.complete r)) ≠ some .posInf

instance (W : WorkerConfig R) (r : R) : Decidable (FiniteReset W r) := inferInstanceAs (Decidable (_ ≠ _))

theorem resetPause_finite {epoch : Py.PyFloat} {wall : ℚ} (h : resetPause epoch wall = some none) :
    epoch = .posInf := by
  cases epoch with
  | fin e =>
    simp only [resetPause] at h
    split at h <;> cases h
  | posInf => rfl
  | _ => cases h

/-! ## What time is good for -/

/-- Once the cooldown and the patience with a lost probe are over, the breaker lets a
request through. -/
theorem CircuitBreaker.allows_late {b : CircuitBreaker} {now : ℚ}
    (hcooled : b.cooldownS ≤ now - b.openedAt)
    (hstale : b.cooldownS + b.probeTimeoutS < now - b.openedAt) :
    (b.allowRequest now).1 = true := by
  cases hstate : b.state with
  | closed => rw [CircuitBreaker.allowRequest_closed hstate]
  | opened => rw [CircuitBreaker.allowRequest_opened hstate, if_pos hcooled]
  | halfOpen =>
    have hlost : b.stale now = true := decide_eq_true hstale
    rw [CircuitBreaker.allowRequest_halfOpen hstate, if_neg]
    rw [hlost]
    exact fun h => Bool.true_eq_false.mp h.2

/-- A bucket that is left alone holds a token in the end. -/
theorem TokenBucket.grants_late {b : TokenBucket ℚ} (hrate : 0 < b.rate) (hcapacity : 1 ≤ b.capacity)
    {now : ℚ} (hnow : b.lastRefill + (1 - b.tokens) / b.rate ≤ now) :
    1 ≤ (b.refill now).tokens := by
  have hwait : (1 - b.tokens) / b.rate ≤ max 0 (now - b.lastRefill) :=
    le_max_of_le_right (by linarith)
  have hgain : 1 - b.tokens ≤ max 0 (now - b.lastRefill) * b.rate := by
    rwa [div_le_iff₀ hrate] at hwait
  apply le_min
  · exact hcapacity
  · linarith

/-! ## A worker can move -/

section Worker

variable {W : WorkerConfig R}

/-- With `input` the worker does more than wait, and does not fall asleep for ever. -/
structure Moves (W : WorkerConfig R) (ctx : WorkerContext) (ws : WorkerState)
    (input : WorkerInput R) (next : Next) : Prop where
  step : workerStep W ctx ws input = some next
  works : ws.waitsOn next.2 = false
  awake : next.2.endless = false

theorem acquirePass_awake (ctx : WorkerContext) (h : InHand) :
    (acquirePass ctx h).2.endless = false := by
  have hbranch := acquirePass_branch ctx h
  generalize acquirePass ctx h = next at hbranch ⊢
  cases hbranch <;> rfl

theorem loopTop_awake (ctx : WorkerContext) (h : InHand) :
    (loopTop ctx h).2.endless = false := by
  have hbranch := loopTop_branch ctx h
  generalize loopTop ctx h = next at hbranch ⊢
  cases hbranch with
  | allowed _ _ _ => exact acquirePass_awake _ _
  | _ => rfl

theorem retryOrFail_awake (W : WorkerConfig R) (ctx : WorkerContext) (h : InHand) (f : Failure)
    (u : ℚ) : (retryOrFail W ctx h f u).2.endless = false := by
  have hbranch := retryOrFail_branch W ctx h f u
  generalize retryOrFail W ctx h f u = next at hbranch ⊢
  cases hbranch <;> rfl

theorem afterFailure_awake (W : WorkerConfig R) (ctx : WorkerContext) (h : InHand)
    {outcome : Outcome} (hfinite : resetEpoch outcome ≠ some .posInf) (f : Failure) (u : ℚ) :
    (afterFailure W ctx h outcome f u).2.endless = false := by
  have hbranch := afterFailure_branch W ctx h outcome f u
  generalize afterFailure W ctx h outcome f u = next at hbranch ⊢
  cases hbranch with
  | hung _ hreset hpause => exact absurd (resetPause_finite hpause ▸ hreset) hfinite
  | throttled _ _ => exact retryOrFail_awake W _ h f u
  | failed _ _ => exact retryOrFail_awake W ctx h f u
  | _ => rfl

theorem callBranch_awake {ctx : WorkerContext} {h : InHand} {start u : ℚ} {r : R} {raises : Bool}
    {next : Next} (hfinite : FiniteReset W r) (hcall : CallBranch W ctx h start r u raises next) :
    next.2.endless = false := by
  cases hcall with
  | failed _ => exact afterFailure_awake W _ h hfinite _ u
  | _ => rfl

theorem isDraw_zero : IsDraw 0 := ⟨le_rfl, zero_le_one⟩

theorem reply_step (W : WorkerConfig R) (ctx : WorkerContext) (h : InHand) (start u : ℚ) (r : R)
    (raises : Bool) : workerStep W ctx (.calling h start) (.reply r u raises) =
      if IsDraw u then afterCall W ctx h start r u raises else none := rfl

/-- A worker with an item can move, once it is late enough, whatever it is answered. -/
theorem hand_moves (ctx : WorkerContext) {ws : WorkerState} (answer : ℚ → R)
    (hfinite : ∀ now, FiniteReset W (answer now))
    (hrate : 0 < ctx.controller.bucket.rate) (hcapacity : 1 ≤ ctx.controller.bucket.capacity)
    (hidle : ws ≠ .idle) (hreturned : ws ≠ .returned) (hawake : ws.endless = false) :
    ∃ late, ∀ now, late ≤ now → ∃ input next, Moves W { ctx with now } ws input next ∧
      (∀ r u raises, input = .reply r u raises → r = answer now ∧
        (raises = true → workerStep W { ctx with now } ws (.reply r u false) = none)) := by
  have hwake : ∀ (now u : ℚ) (r : R) (v : ℚ) (raises : Bool),
      (WorkerInput.wake u : WorkerInput R) = .reply r v raises → r = answer now ∧
        (raises = true → workerStep W { ctx with now } ws (.reply r v false) = none) :=
    fun now u r v raises h => by cases h
  cases ws with
  | idle => exact absurd rfl hidle
  | returned => exact absurd rfl hreturned
  | breakerWait h wake =>
    refine ⟨max wake (ctx.circuitBreaker.openedAt + ctx.circuitBreaker.cooldownS +
      max 0 ctx.circuitBreaker.probeTimeoutS + 1), fun now hnow => ?_⟩
    obtain ⟨hwoken, hlate⟩ := max_le_iff.mp hnow
    have hpatience : 0 ≤ max 0 ctx.circuitBreaker.probeTimeoutS ∧
        ctx.circuitBreaker.probeTimeoutS ≤ max 0 ctx.circuitBreaker.probeTimeoutS :=
      ⟨le_max_left _ _, le_max_right _ _⟩
    have hallows : (ctx.circuitBreaker.allowRequest now).1 = true :=
      CircuitBreaker.allows_late (by linarith) (by linarith)
    refine ⟨.wake 0, loopTop { ctx with now } h, ⟨if_pos hwoken, ?_, loopTop_awake _ h⟩, hwake now 0⟩
    have hbranch := loopTop_branch { ctx with now } h
    generalize loopTop { ctx with now } h = next at hbranch ⊢
    cases hbranch with
    | refused _ _ hask =>
      simp only at hask
      rw [hallows] at hask
      cases hask
    | allowed _ _ _ =>
      have hacquire := acquirePass_branch
        (({ ctx with now } : WorkerContext).withBreaker (ctx.circuitBreaker.allowRequest now).2)
        { h with attempt := h.attempt + 1 }
      generalize acquirePass _ _ = next at hacquire ⊢
      cases hacquire <;> rfl
    | _ => rfl
  | acquiring h wake =>
    refine ⟨max wake (ctx.controller.bucket.lastRefill +
      (1 - ctx.controller.bucket.tokens) / ctx.controller.bucket.rate), fun now hnow => ?_⟩
    obtain ⟨hwoken, hlate⟩ := max_le_iff.mp hnow
    have htoken := TokenBucket.grants_late hrate hcapacity hlate
    refine ⟨.wake 0, acquirePass { ctx with now } h,
      ⟨if_pos hwoken, ?_, acquirePass_awake _ h⟩, hwake now 0⟩
    have hbranch := acquirePass_branch { ctx with now } h
    generalize acquirePass { ctx with now } h = next at hbranch ⊢
    cases hbranch with
    | granted _ => rfl
    | waits hwait =>
      rw [TokenBucket.acquire, if_pos htoken] at hwait
      cases hwait
  | calling h start =>
    refine ⟨ctx.now, fun now _ => ?_⟩
    obtain ⟨raises, next, hcall, hcompelled⟩ :=
      afterCall_ends W { ctx with now } h start (answer now) 0
    have hstep : workerStep W { ctx with now } (.calling h start) (.reply (answer now) 0 raises) =
        some next := by
      rw [reply_step, if_pos isDraw_zero]
      exact hcall
    have hmoves : Moves W { ctx with now } (.calling h start) (.reply (answer now) 0 raises) next :=
      ⟨hstep, rfl, callBranch_awake (hfinite now) (afterCall_branch hcall)⟩
    refine ⟨.reply (answer now) 0 raises, next, hmoves, ?_⟩
    intro r u raises' hinput
    cases hinput
    refine ⟨rfl, fun hraises => ?_⟩
    rw [reply_step, if_pos isDraw_zero]
    exact hcompelled hraises
  | resetWait h wake f =>
    cases wake with
    | none => cases hawake
    | some wake =>
      refine ⟨wake, fun now hnow => ?_⟩
      exact ⟨.wake 0, _, ⟨if_pos ⟨hnow, isDraw_zero⟩, rfl, rfl⟩, hwake now 0⟩
  | resetJitter h wake f =>
    refine ⟨wake, fun now hnow => ?_⟩
    exact ⟨.wake 0, _, ⟨if_pos ⟨hnow, isDraw_zero⟩, rfl, retryOrFail_awake W _ h f 0⟩, hwake now 0⟩
  | backoff h wake =>
    refine ⟨wake, fun now hnow => ?_⟩
    exact ⟨.wake 0, _, ⟨if_pos hnow, rfl, loopTop_awake _ h⟩, hwake now 0⟩

/-- A worker without an item can take what is in the queue. -/
theorem idle_moves {ctx : WorkerContext} (hqueue : ctx.queue.items ≠ []) :
    ∃ next, Moves W ctx .idle .take next := by
  cases hitems : ctx.queue.items with
  | nil => exact absurd hitems hqueue
  | cons x rest =>
    have hget : ctx.queue.get = some (x, { ctx.queue with items := rest }) := by
      unfold BoundedQueue.get
      rw [hitems]
    refine ⟨takeItem (ctx.withQueue { ctx.queue with items := rest }) x, ?_, rfl, ?_⟩
    · show ctx.queue.get.map _ = _
      rw [hget]
      rfl
    · match x with
      | .shutdown => rfl
      | .ticket ⟨_, .error _⟩ => rfl
      | .ticket ⟨seq, .item p⟩ => exact loopTop_awake _ _

end Worker

/-! ## Some party can move -/

section Job

variable {J : JobRunner R}

/-- A worker that has not returned, with an item to drive or one to take. -/
def CanWork {n : ℕ} (s : State n) (i : Fin n) : Prop :=
  s.workers i ≠ .returned ∧ (s.workers i = .idle → s.ctx.queue.items ≠ [])

theorem put_full {q : BoundedQueue Queued} {x : Queued} (h : q.put x = none) : q.items ≠ [] := by
  unfold BoundedQueue.put at h
  split at h
  · rename_i hfull
    intro hempty
    have hlength := hfull.2
    have hpos := hfull.1
    rw [hempty, List.length_nil] at hlength
    omega
  · cases h

/-- While `run` still owes a sentinel, some worker has not returned. -/
theorem exists_not_returned {s : State J.concurrency} {ts : List Ticket} {m : ℕ}
    (hs : Orderly s ts m) (howed : 0 < m + s.phase.owed J.concurrency) :
    ∃ i, s.workers i ≠ .returned := by
  by_contra hnone
  push Not at hnone
  have hgone : ∑ i, (s.workers i).gone = J.concurrency := by
    simp [hnone, WorkerState.gone]
  have hsentinels := hs.sentinels
  omega

theorem owed_pos_of_put {s : State J.concurrency} {t : Ticket} (hphase : s.phase = .putting t) :
    0 < s.phase.owed J.concurrency := by
  rw [hphase]
  exact J.concurrency_pos

/-- The tail of `run` ends: it returns, or it raises where it has to. -/
theorem finalize_ends (J : JobRunner R) {n : ℕ} (s : State n) :
    ∃ raises t, finalize J s raises = some t ∧ (raises = true → finalize J s false = none) := by
  by_cases hover : CostOverflows s.ctx.record.usage
  · have hmay : CostMayRaise J.toWorkerConfig s.ctx.record.usage := Or.inr hover
    refine ⟨true, _, by rw [finalize, if_pos rfl, if_pos hmay], fun _ => ?_⟩
    rw [finalize, if_neg Bool.false_ne_true, if_pos hover]
  · refine ⟨false, _, by rw [finalize, if_neg Bool.false_ne_true, if_neg hover], fun hraises => ?_⟩
    cases hraises

/-- Wherever a job has come to, its runner, its writer or one of its workers is not waiting
for another party. -/
theorem some_party {s : State J.concurrency} (h : Reachable J s)
    (hopen : ∀ exc, s.phase ≠ .finished exc) :
    (∃ raises t, step J s (.runner raises) = some t ∧
        (raises = true → step J s (.runner false) = none)) ∨
      (∃ t, step J s .writer = some t) ∨ ∃ i, CanWork s i := by
  obtain ⟨ts, m, horder⟩ := reachable_orderly h
  have hblocked : ∀ x, s.ctx.queue.put x = none → 0 < s.phase.owed J.concurrency →
      ∃ i, CanWork s i := by
    intro x hput howed
    obtain ⟨i, hi⟩ := exists_not_returned horder (Nat.add_pos_right m howed)
    exact ⟨i, hi, fun _ => put_full hput⟩
  have hreturns : ∀ {t}, step J s (.runner false) = some t → ∃ raises t,
      step J s (.runner raises) = some t ∧
        (raises = true → step J s (.runner false) = none) :=
    fun ht => ⟨false, _, ht, fun hraises => by cases hraises⟩
  cases hphase : s.phase with
  | starting => exact Or.inl (hreturns (by simp only [step, runnerStep, hphase]; rfl))
  | reading => exact Or.inl (hreturns (by simp only [step, runnerStep, hphase]; rfl))
  | saving => exact Or.inl (hreturns (by simp only [step, runnerStep, hphase]; rfl))
  | closing exc => exact Or.inl (hreturns (by simp only [step, runnerStep, hphase]; rfl))
  | savingFinal => exact Or.inl (hreturns (by simp only [step, runnerStep, hphase]; rfl))
  | delivering => exact Or.inl (hreturns (by simp only [step, runnerStep, hphase]; rfl))
  | finished exc => exact absurd hphase (hopen exc)
  | putting t =>
    cases hput : s.ctx.queue.put (.ticket t) with
    | none => exact Or.inr (Or.inr (hblocked _ hput (owed_pos_of_put hphase)))
    | some q => exact Or.inl (hreturns (by simp only [step, runnerStep, hphase, hput]; rfl))
  | shuttingDown left exc =>
    cases left with
    | zero => exact Or.inl (hreturns (by simp only [step, runnerStep, hphase]; rfl))
    | succ left =>
      cases hput : s.ctx.queue.put .shutdown with
      | none =>
        refine Or.inr (Or.inr (hblocked _ hput ?_))
        rw [hphase]
        exact Nat.succ_pos left
      | some q => exact Or.inl (hreturns (by simp only [step, runnerStep, hphase, hput]; rfl))
  | gathering exc =>
    by_cases hall : ∀ i, s.workers i = .returned
    · exact Or.inl (hreturns (by simp only [step, runnerStep, hphase]; exact if_pos hall))
    · -- a worker that has not returned still has a sentinel in the queue
      push Not at hall
      obtain ⟨i, hi⟩ := hall
      refine Or.inr (Or.inr ⟨i, hi, fun _ hempty => ?_⟩)
      have hsentinels := horder.sentinels
      have hqueue := horder.queue
      rw [hempty] at hqueue
      have hnone : m = 0 := by
        have hlength := congrArg List.length hqueue
        simp only [List.length_nil, List.length_append, List.length_map,
          List.length_replicate] at hlength
        omega
      have hgone : ∑ j, (s.workers j).gone < J.concurrency := by
        calc ∑ j, (s.workers j).gone < ∑ _j : Fin J.concurrency, 1 := by
              apply Finset.sum_lt_sum
              · intro j _
                unfold WorkerState.gone
                split <;> decide
              · exact ⟨i, Finset.mem_univ i, by rw [WorkerState.gone, if_neg hi]; decide⟩
          _ = J.concurrency := by simp
      rw [hphase] at hsentinels
      simp only [RunPhase.owed] at hsentinels
      omega
  | closingSink exc =>
    have hfacts := reachable_sinkFacts h
    rw [hphase] at hfacts
    rcases hfacts with ⟨hdone, rows, hqueue⟩ | hcomplete
    · refine Or.inr (Or.inl ?_)
      have hwrites : ∃ sink, s.ctx.sink.writerStep s.ctx.now = some sink := by
        unfold ResultSink.writerStep
        rw [hdone, if_neg Bool.false_ne_true, hqueue]
        cases rows with
        | nil => exact ⟨_, rfl⟩
        | cons row rows => exact ⟨_, rfl⟩
      obtain ⟨sink, hsink⟩ := hwrites
      exact ⟨_, by simp only [step, hsink]; rfl⟩
    · refine Or.inl ?_
      cases exc with
      | some exc =>
        exact hreturns (by simp only [step, runnerStep, hphase]; exact if_pos hcomplete.done)
      | none =>
        have htail : ∀ raises, step J s (.runner raises) = finalize J s raises := by
          intro raises
          simp only [step, runnerStep, hphase]
          exact if_pos hcomplete.done
        simp only [htail]
        exact finalize_ends J s

/-! ## Some run lowers the work -/

/-- No worker sleeps for ever. -/
def Awake {n : ℕ} (s : State n) : Prop := ∀ i, (s.workers i).endless = false

/-- The provider answers as `answer` says, and nothing raises that could have returned: the
cost methods and the webhook do return, and only a division can overflow. -/
def Answers (J : JobRunner R) (answer : State J.concurrency → Fin J.concurrency → R)
    (s : State J.concurrency) : Action R J.concurrency → Prop
  | .worker i (.reply r u raises) =>
    r = answer s i ∧ (raises = true → step J s (.worker i (.reply r u false)) = none)
  | .runner raises => raises = true → step J s (.runner false) = none
  | _ => True

theorem reachable_rate_pos (hrpm : 0 < J.rateLimitRpm) {s : State J.concurrency}
    (h : Reachable J s) : 0 < s.ctx.controller.bucket.rate := by
  refine h.invariant (I := fun s => 0 < s.ctx.controller.bucket.rate) ?_ ?_
  · intro now wall
    have hrpm' : (0 : ℚ) < J.rateLimitRpm := Nat.cast_pos.mpr hrpm
    exact div_pos hrpm' (by norm_num)
  · intro s a s' _ hs ht
    cases ht with
    | worker _ hdoes => exact hdoes.rate hs
    | _ => exact hs

/-- A step that leaves the workers alone and does not wait. -/
theorem plain_moves {s t : State J.concurrency} {a : Action R J.concurrency}
    {Q : State J.concurrency → Action R J.concurrency → Prop} (h : Reachable J s) (hawake : Awake s)
    (hstep : step J s a = some t) (hQ : Q s a) (hworkers : t.workers = s.workers)
    (hwaits : waits s a t = false) :
    ∃ as t, Runs.exec (step J) s as = some t ∧ Runs.Along (step J) Q s as ∧
      (Reachable J t ∧ Awake t) ∧ work t < work s := by
  have hlower := step_work h hstep
  rw [hwaits, if_neg Bool.false_ne_true] at hlower
  have hrun : Runs.exec (step J) s [a] = some t := Runs.exec_cons_iff.mpr ⟨t, hstep, rfl⟩
  refine ⟨[a], t, hrun, ⟨hQ, fun _ _ => trivial⟩, ⟨h.step hstep, ?_⟩, hlower⟩
  intro i
  rw [hworkers]
  exact hawake i

/-- A turn of a worker that moves. -/
theorem turn_moves {s : State J.concurrency} {i : Fin J.concurrency} {input : WorkerInput R}
    {next : Next} {Q : State J.concurrency → Action R J.concurrency → Prop} (h : Reachable J s)
    (hawake : Awake s) (hmoves : Moves J.toWorkerConfig s.ctx (s.workers i) input next)
    (hQ : Q s (.worker i input)) :
    ∃ as t, Runs.exec (step J) s as = some t ∧ Runs.Along (step J) Q s as ∧
      (Reachable J t ∧ Awake t) ∧ work t < work s := by
  have hstep : step J s (.worker i input) =
      some { s with ctx := next.1, workers := Function.update s.workers i next.2 } := by
    simp only [step, hmoves.step, Option.map_some]
  have hlower := step_work h hstep
  simp only [waits, Function.update_self, hmoves.works, if_neg Bool.false_ne_true] at hlower
  refine ⟨[.worker i input], _, Runs.exec_cons_iff.mpr ⟨_, hstep, rfl⟩, ⟨hQ, fun _ _ => trivial⟩,
    ⟨h.step hstep, ?_⟩, hlower⟩
  intro j
  by_cases hj : j = i
  · subst hj
    simp only [Function.update_self]
    exact hmoves.awake
  · simp only [Function.update_of_ne hj]
    exact hawake j

/-- Wherever the job is not at its end, time and one party bring it closer. -/
theorem job_moves (hrpm : 0 < J.rateLimitRpm) (answer : State J.concurrency → Fin J.concurrency → R)
    (hfinite : ∀ s i, FiniteReset J.toWorkerConfig (answer s i)) {s : State J.concurrency}
    (h : Reachable J s) (hawake : Awake s) (hopen : ∀ exc, s.phase ≠ .finished exc) :
    ∃ as t, Runs.exec (step J) s as = some t ∧ Runs.Along (step J) (Answers J answer) s as ∧
      (Reachable J t ∧ Awake t) ∧ work t < work s := by
  rcases some_party h hopen with ⟨raises, t, hstep, hcompelled⟩ | ⟨t, hstep⟩ |
    ⟨i, hreturned, hqueue⟩
  · refine plain_moves h hawake hstep hcompelled ?_ rfl
    cases step_turn hstep <;> rfl
  · refine plain_moves h hawake hstep trivial ?_ rfl
    cases step_turn hstep
    rfl
  by_cases hidle : s.workers i = .idle
  · obtain ⟨next, hmoves⟩ := idle_moves (W := J.toWorkerConfig) (hqueue hidle)
    rw [← hidle] at hmoves
    exact turn_moves h hawake hmoves trivial
  -- the clock runs until what the worker waits for is there
  have hcapacity : 1 ≤ s.ctx.controller.bucket.capacity := (reachable_paced h).capacity
  obtain ⟨late, hlate⟩ := hand_moves s.ctx
    (fun now => answer { s with ctx := { s.ctx with now } } i)
    (fun now => hfinite { s with ctx := { s.ctx with now } } i)
    (reachable_rate_pos hrpm h) hcapacity hidle hreturned (hawake i)
  have htick : step J s (.tick (max 0 (late - s.ctx.now)) s.ctx.wall) =
      some { s with ctx.now := s.ctx.now + max 0 (late - s.ctx.now) } :=
    if_pos (le_max_left 0 _)
  have hreached : late ≤ s.ctx.now + max 0 (late - s.ctx.now) := by
    have hgap := le_max_right 0 (late - s.ctx.now)
    linarith
  obtain ⟨input, next, hmoves, hanswers⟩ := hlate _ hreached
  have hQ : Answers J answer { s with ctx.now := s.ctx.now + max 0 (late - s.ctx.now) }
      (.worker i input) := by
    cases input with
    | reply r u raises =>
      obtain ⟨hanswer, hcompelled⟩ := hanswers r u raises rfl
      refine ⟨hanswer, fun hraises => ?_⟩
      simp only [step, hcompelled hraises, Option.map_none]
    | _ => trivial
  obtain ⟨as, t, hrun, hall, ht, hlower⟩ := turn_moves (Q := Answers J answer) (h.step htick)
    hawake hmoves hQ
  refine ⟨_ :: as, t, Runs.exec_cons_iff.mpr ⟨_, htick, hrun⟩, ⟨trivial, ?_⟩, ht, hlower⟩
  intro t' ht'
  obtain rfl := Option.some.inj (htick.symm.trans ht')
  exact hall

/-! ## The law -/

theorem endless_stuck (W : WorkerConfig R) (ctx : WorkerContext) {ws : WorkerState}
    (hws : ws.endless = true) (input : WorkerInput R) : workerStep W ctx ws input = none := by
  cases ws with
  | resetWait h wake f =>
    cases wake with
    | none => cases input <;> rfl
    | some wake => cases hws
  | _ => cases hws

/-- A worker that sleeps for ever does not come back. -/
theorem endless_forever {actions : List (Action R J.concurrency)} {s s' : State J.concurrency}
    {i : Fin J.concurrency} (hs : (s.workers i).endless = true)
    (hrun : Runs.exec (step J) s actions = some s') : (s'.workers i).endless = true := by
  refine Runs.exec_invariant' (I := fun s : State J.concurrency => (s.workers i).endless = true)
    ?_ hs hrun
  intro s a t hs ht
  cases a with
  | worker j input =>
    obtain ⟨⟨ctx', ws'⟩, hworker, rfl⟩ := Option.map_eq_some_iff.mp ht
    by_cases hj : i = j
    · subst hj
      have hnone := endless_stuck J.toWorkerConfig s.ctx hs input
      rw [hworker] at hnone
      cases hnone
    · simp only [Function.update_of_ne hj]
      exact hs
  | tick _ _ => cases step_turn ht; exact hs
  | cancel => cases step_turn ht; exact hs
  | runner _ => cases step_turn ht <;> exact hs
  | writer => cases step_turn ht; exact hs
  | writerTimeout => cases step_turn ht; exact hs

/-- Let the provider answer anything that announces no infinite reset. Then from wherever a
job has come to it can be brought to its end, unless one of its workers sleeps for ever
already. -/
theorem can_finish_iff (hrpm : 0 < J.rateLimitRpm)
    (answer : State J.concurrency → Fin J.concurrency → R)
    (hfinite : ∀ s i, FiniteReset J.toWorkerConfig (answer s i)) {s : State J.concurrency}
    (h : Reachable J s) :
    (∃ actions s' exc, Runs.exec (step J) s actions = some s' ∧ s'.phase = .finished exc ∧
      Runs.Along (step J) (Answers J answer) s actions) ↔
    ∀ i, (s.workers i).endless = false := by
  constructor
  · rintro ⟨actions, s', exc, hrun, hphase, -⟩ i
    by_contra hendless
    have hstill := endless_forever (Bool.eq_true_of_not_eq_false hendless) hrun
    obtain ⟨ts, m, horder⟩ := reachable_orderly (h.exec hrun)
    have hreturned := horder.drained (by rw [hphase]; trivial) i
    rw [hreturned] at hstill
    cases hstill
  · intro hawake
    obtain ⟨actions, s', hrun, hall, -, exc, hphase⟩ := Runs.exec_to_goal
      (fun s => Reachable J s ∧ Awake s) (fun s => ∃ exc, s.phase = .finished exc)
      (Answers J answer) (fun s => work s)
      (fun s hs hgoal => job_moves hrpm answer hfinite hs.1 hs.2 (not_exists.mp hgoal))
      ⟨h, hawake⟩
    exact ⟨actions, s', exc, hrun, hphase, hall⟩

/-- A provider that is always down: the job still ends. -/
def alwaysDown : CallResult := .returned { statusCode := 503, text := "" }

theorem can_finish_twoRows : ∃ actions s' exc,
    Runs.exec (step twoRows) (twoRows.start 0 0) actions = some s' ∧ s'.phase = .finished exc ∧
      Runs.Along (step twoRows) (Answers twoRows fun _ _ => alwaysDown) (twoRows.start 0 0) actions :=
  (can_finish_iff (J := twoRows) (by decide) (fun _ _ => alwaysDown) (fun _ _ => by decide)
    (reachable_start twoRows 0 0)).mpr fun _ => rfl

end Job

end BatchEngine.Core
