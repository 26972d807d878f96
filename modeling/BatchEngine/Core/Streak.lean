import BatchEngine.Core.SpendGuard
import BatchEngine.Core.Timeline

/-!
# When the rate of a job rises

The controller counts the successes since the last 429 and raises the rate at the
fiftieth. The other failures are not reported to it, so fifty successes that it counts
need not be fifty in a row.
-/

set_option autoImplicit false

namespace BatchEngine.Core

open BatchEngine.Providers
open AdaptiveController (Event)

variable {R : Type*} {J : JobRunner R}

/-! ## Answers in a row -/

/-- There are `k` last outcomes, and they are successes. -/
def LastSucceed (k : ℕ) (outcomes : List Outcome) : Prop :=
  k ≤ outcomes.length ∧ ∀ o ∈ outcomes.reverse.take k, (classify o).1 = .success

instance (k : ℕ) (outcomes : List Outcome) : Decidable (LastSucceed k outcomes) :=
  inferInstanceAs (Decidable (_ ∧ _))

theorem lastSucceed_zero (outcomes : List Outcome) : LastSucceed 0 outcomes :=
  ⟨Nat.zero_le _, fun _ ho => absurd ho List.not_mem_nil⟩

/-- One more success is a longer streak if there was one; a failure ends every streak. -/
theorem lastSucceed_snoc (k : ℕ) (outcomes : List Outcome) (o : Outcome) :
    LastSucceed (k + 1) (outcomes ++ [o]) ↔ (classify o).1 = .success ∧ LastSucceed k outcomes := by
  unfold LastSucceed
  rw [List.length_append, List.length_singleton, List.reverse_append, List.reverse_singleton,
    List.singleton_append, List.take_succ_cons, List.forall_mem_cons, Nat.add_le_add_iff_right]
  exact and_left_comm

/-! ## What the run has seen -/

/-- The outcomes of the calls in the order in which they were processed. `broken` says that
a failure which is no 429 has come since the first success that the controller counts. -/
structure StreakHistory where
  outcomes : List Outcome := []
  broken : Bool := false

def StreakHistory.process (hist : StreakHistory) (c : AdaptiveController) (o : Outcome) :
    StreakHistory where
  outcomes := hist.outcomes ++ [o]
  broken :=
    match eventOf o with
    | some .success =>
      hist.broken && decide (c.consecutiveSuccesses + 1 < c.successStreakForIncrease)
    | some .throttle => false
    | none => hist.broken || decide (0 < c.consecutiveSuccesses)

def streakStep (J : JobRunner R) : State J.concurrency × StreakHistory →
    Action R J.concurrency → Option (State J.concurrency × StreakHistory) :=
  Runs.withHistory (step J) fun s a _ hist =>
    match a.answer J.toWorkerConfig with
    | some o => hist.process s.ctx.controller o
    | none => hist

/-- If the step raises the rate, it processes an outcome, and with it the last fifty are
successes. -/
def RisesOnStreak (J : JobRunner R) (p : State J.concurrency × StreakHistory)
    (a : Action R J.concurrency) : Prop :=
  ∀ q, streakStep J p a = some q →
    p.1.ctx.controller.bucket.rate < q.1.ctx.controller.bucket.rate →
      (∃ o, q.2.outcomes = p.2.outcomes ++ [o]) ∧ LastSucceed 50 q.2.outcomes

/-- The fiftieth success that the controller counts, below the maximal rate, comes without a
failure in between, and a 429 that is to cut the rate finds it no lower than its minimum. -/
def StreakKept (J : JobRunner R) (p : State J.concurrency × StreakHistory)
    (a : Action R J.concurrency) : Prop :=
  ∀ q, streakStep J p a = some q → ∀ o, a.answer J.toWorkerConfig = some o →
    let c := p.1.ctx.controller
    (eventOf o = some .success → c.consecutiveSuccesses = 49 →
      c.bucket.rate < max c.maxRate (1 / 1000000) → p.2.broken = false) ∧
    (eventOf o = some .throttle → c.cooled p.1.ctx.now = true → c.minRate ≤ c.bucket.rate)

/-! ## The counter -/

/-- The controller counts successes of the run, and they are its last outcomes unless the
streak is broken. -/
structure Counts (c : AdaptiveController) (hist : StreakHistory) : Prop where
  below : c.consecutiveSuccesses < 50
  unbroken : hist.broken = false ↔ LastSucceed c.consecutiveSuccesses hist.outcomes

theorem eventOf_success_iff (o : Outcome) :
    eventOf o = some .success ↔ (classify o).1 = .success := by
  unfold eventOf
  cases (classify o).1 <;> simp

/-- A failure after the first success of a streak breaks it. -/
theorem counts_failure {c : AdaptiveController} {hist : StreakHistory} (hs : Counts c hist)
    {o : Outcome} (ho : eventOf o = none) : Counts c (hist.process c o) := by
  refine ⟨hs.below, ?_⟩
  have hclass : ¬ (classify o).1 = .success := by
    rw [← eventOf_success_iff, ho]
    exact Option.some_ne_none _ ∘ Eq.symm
  have hunbroken := hs.unbroken
  simp only [StreakHistory.process, ho, Bool.or_eq_false_iff, decide_eq_false_iff_not]
  cases hcount : c.consecutiveSuccesses with
  | zero =>
    rw [hcount] at hunbroken
    exact iff_of_true ⟨hunbroken.mpr (lastSucceed_zero _), lt_irrefl 0⟩ (lastSucceed_zero _)
  | succ k =>
    rw [lastSucceed_snoc]
    exact iff_of_false (fun h => h.2 (Nat.succ_pos k)) fun h => hclass h.1

theorem counts_success {c : AdaptiveController} {hist : StreakHistory} (hs : Counts c hist)
    (hstreak : c.successStreakForIncrease = 50) {o : Outcome} (ho : eventOf o = some .success)
    (now : ℚ) : Counts (c.recordSuccess now) (hist.process c o) := by
  have hunbroken := hs.unbroken
  have hsnoc := lastSucceed_snoc c.consecutiveSuccesses hist.outcomes o
  rw [and_iff_right ((eventOf_success_iff o).mp ho), ← hunbroken] at hsnoc
  obtain ⟨-, ⟨hmore, -, hcount⟩ | ⟨hfull, -, hcount⟩⟩ :=
    AdaptiveController.recordSuccess_cases c now
  · refine ⟨by omega, ?_⟩
    rw [hcount]
    simp only [StreakHistory.process, ho, hmore, decide_true, Bool.and_true]
    exact hsnoc.symm
  · refine ⟨by omega, ?_⟩
    rw [hcount]
    simp only [StreakHistory.process, ho, not_lt.mpr hfull, decide_false, Bool.and_false]
    exact iff_of_true trivial (lastSucceed_zero _)

theorem counts_throttle {c : AdaptiveController} {hist : StreakHistory} {o : Outcome}
    (ho : eventOf o = some .throttle) (now : ℚ) :
    Counts (c.recordThrottle now) (hist.process c o) := by
  have hcount := (AdaptiveController.recordThrottle_cases c now).1
  refine ⟨by omega, ?_⟩
  rw [hcount]
  simp only [StreakHistory.process, ho]
  exact iff_of_true trivial (lastSucceed_zero _)

theorem Counts.quiet {c c' : AdaptiveController} {hist : StreakHistory} (hs : Counts c hist)
    (h : Quiet c c') : Counts c' hist := by
  refine ⟨by rw [h.streak]; exact hs.below, ?_⟩
  rw [h.streak]
  exact hs.unbroken

theorem counts_process {c : AdaptiveController} {hist : StreakHistory} (hs : Counts c hist)
    (hstreak : c.successStreakForIncrease = 50) (o : Outcome) (now : ℚ) :
    Counts (c.hear now (eventOf o)) (hist.process c o) := by
  cases hevent : eventOf o with
  | none => exact counts_failure hs hevent
  | some e =>
    cases e with
    | success => exact counts_success hs hstreak hevent now
    | throttle => exact counts_throttle hevent now

/-- What holds of the controller and the history in every run. -/
structure Heard (J : JobRunner R) (p : State J.concurrency × StreakHistory) : Prop where
  reachable : Reachable J p.1
  counts : Counts p.1.ctx.controller p.2
  rate : 0 ≤ p.1.ctx.controller.bucket.rate

theorem hear_rate_nonneg {c : AdaptiveController} (hrate : 0 ≤ c.bucket.rate) (now : ℚ)
    (e : Option Event) : 0 ≤ (c.hear now e).bucket.rate := by
  have hfloor : ∀ r : ℚ, 0 ≤ max r (1 / 1000000) := fun r =>
    le_trans (by norm_num) (le_max_right r _)
  cases e with
  | none => exact hrate
  | some e =>
    cases e with
    | success =>
      obtain ⟨-, ⟨-, h, -⟩ | ⟨-, h, -⟩⟩ := AdaptiveController.recordSuccess_cases c now
      · exact hrate.trans h.ge
      · exact (hfloor _).trans h.ge
    | throttle =>
      obtain ⟨-, ⟨-, -, h⟩ | ⟨-, -, h⟩⟩ := AdaptiveController.recordThrottle_cases c now
      · exact (hfloor _).trans h.ge
      · exact hrate.trans h.ge

theorem step_heard {p q : State J.concurrency × StreakHistory} {a : Action R J.concurrency}
    (hs : Heard J p) (h : streakStep J p a = some q) : Heard J q := by
  obtain ⟨hstep, hhist⟩ := Runs.withHistory_some.mp h
  have hquiet := step_hears hstep
  refine ⟨hs.reachable.step hstep, ?_, ?_⟩
  · rw [hhist]
    cases hanswer : a.answer J.toWorkerConfig with
    | none =>
      rw [hanswer] at hquiet
      exact hs.counts.quiet hquiet
    | some o =>
      rw [hanswer] at hquiet
      have hstreak := (reachable_tuning hs.reachable).successStreak
      exact (counts_process hs.counts hstreak o p.1.ctx.now).quiet hquiet
  · rw [hquiet.rate]
    exact hear_rate_nonneg hs.rate _ _

theorem start_heard (J : JobRunner R) (now wall : ℚ) : Heard J (J.start now wall, {}) where
  reachable := reachable_start J now wall
  counts := ⟨Nat.zero_lt_succ 49, iff_of_true rfl (lastSucceed_zero [])⟩
  rate := by
    show 0 ≤ rateRps J.rateLimitRpm
    unfold rateRps
    positivity

/-! ## The law -/

/-- A full streak raises the rate exactly if it is below its maximum. -/
theorem raised_iff {rate maxRate step : ℚ} (hstep : 0 < step) :
    rate < max (min maxRate (rate + step)) (1 / 1000000) ↔ rate < max maxRate (1 / 1000000) := by
  rw [lt_max_iff, lt_max_iff, lt_min_iff, and_iff_left (lt_add_of_pos_right rate hstep)]

/-- A cut raises the rate exactly if it was below its minimum. -/
theorem cut_raises_iff {rate minRate : ℚ} (hrate : 0 ≤ rate) (hmin : 1 / 1000000 ≤ minRate) :
    rate < max (max minRate (rate * (3 / 4))) (1 / 1000000) ↔ rate < minRate := by
  rw [max_eq_left (hmin.trans (le_max_left _ _)), lt_max_iff, or_iff_left]
  linarith

theorem success_rises_iff {c : AdaptiveController} {hist : StreakHistory} (hs : Counts c hist)
    (hstreak : c.successStreakForIncrease = 50) (hraise : 0 < c.increaseStep) (now : ℚ) :
    (c.bucket.rate < (c.recordSuccess now).bucket.rate → LastSucceed 49 hist.outcomes) ↔
      (c.consecutiveSuccesses = 49 → c.bucket.rate < max c.maxRate (1 / 1000000) →
        hist.broken = false) := by
  have hbelow := hs.below
  obtain ⟨-, ⟨hmore, hkept, -⟩ | ⟨hfull, hraised, -⟩⟩ :=
    AdaptiveController.recordSuccess_cases c now
  · refine iff_of_true (fun hlt => absurd hkept.le (not_le.mpr hlt)) fun hcount => ?_
    omega
  · have hcount : c.consecutiveSuccesses = 49 := by omega
    rw [hraised, raised_iff hraise, hs.unbroken, hcount]
    simp

theorem throttle_rises_iff {c : AdaptiveController} (hrate : 0 ≤ c.bucket.rate)
    (hmin : 1 / 1000000 ≤ c.minRate) (hfactor : c.decreaseFactor = 3 / 4) (now : ℚ) :
    c.bucket.rate < (c.recordThrottle now).bucket.rate ↔
      c.cooled now = true ∧ c.bucket.rate < c.minRate := by
  obtain ⟨-, ⟨hcooled, -, hcut⟩ | ⟨hcooled, -, hkept⟩⟩ :=
    AdaptiveController.recordThrottle_cases c now
  · rw [hcut, hfactor, cut_raises_iff hrate hmin, hcooled, and_iff_right rfl]
  · rw [hkept, hcooled]
    exact iff_of_false (lt_irrefl _) fun h => Bool.false_ne_true h.1

theorem risesOnStreak_iff {p : State J.concurrency × StreakHistory} (hs : Heard J p)
    (a : Action R J.concurrency) : RisesOnStreak J p a ↔ StreakKept J p a := by
  have htuning := reachable_tuning hs.reachable
  have hstreak : p.1.ctx.controller.successStreakForIncrease = 50 := htuning.successStreak
  have hraise : 0 < p.1.ctx.controller.increaseStep := by
    rw [htuning.increaseStep]
    exact one_half_pos
  have hfactor : p.1.ctx.controller.decreaseFactor = 3 / 4 := htuning.decreaseFactor
  have hmin : 1 / 1000000 ≤ p.1.ctx.controller.minRate := by
    rw [htuning.minRate]
    exact le_trans (by norm_num) (le_max_left (1 / 20 : ℚ) _)
  refine forall₂_congr fun q hq => ?_
  obtain ⟨hstep, hhist⟩ := Runs.withHistory_some.mp hq
  have hrate := (step_hears hstep).rate
  cases hanswer : a.answer J.toWorkerConfig with
  | none =>
    rw [hanswer] at hrate
    refine iff_of_true (fun hlt => absurd hrate.le (not_le.mpr hlt)) fun o ho => ?_
    cases ho
  | some o =>
    rw [hanswer] at hrate hhist
    replace hrate : q.1.ctx.controller.bucket.rate =
      (p.1.ctx.controller.hear p.1.ctx.now (eventOf o)).bucket.rate := hrate
    have houtcomes : q.2.outcomes = p.2.outcomes ++ [o] := by rw [hhist]; rfl
    have hone : ∃ o, q.2.outcomes = p.2.outcomes ++ [o] := ⟨o, houtcomes⟩
    rw [and_iff_right hone, houtcomes, lastSucceed_snoc, ← eventOf_success_iff, hrate]
    simp only [Option.some.injEq, forall_eq']
    cases hevent : eventOf o with
    | none =>
      refine iff_of_true (fun hlt => absurd hlt (lt_irrefl _)) ⟨fun h => ?_, fun h => ?_⟩
      · cases h
      · cases h
    | some e =>
      cases e with
      | success =>
        have hlaw := success_rises_iff hs.counts hstreak hraise p.1.ctx.now
        simp only [true_and, forall_const, reduceCtorEq, Option.some.injEq, IsEmpty.forall_iff,
          and_true]
        exact hlaw
      | throttle =>
        have hlaw := throttle_rises_iff hs.rate hmin hfactor p.1.ctx.now
        simp only [reduceCtorEq, Option.some.injEq, false_and, IsEmpty.forall_iff, true_and,
          forall_const, imp_false]
        show ¬ _ < (p.1.ctx.controller.recordThrottle p.1.ctx.now).bucket.rate ↔ _
        rw [hlaw, not_and, not_lt]

/-- Every rise of the rate comes at the last of fifty successes in a row exactly if the steps
of the run keep to the condition. -/
theorem rises_on_streak_iff (J : JobRunner R) (now wall : ℚ)
    (actions : List (Action R J.concurrency)) :
    Runs.Along (streakStep J) (RisesOnStreak J) (J.start now wall, {}) actions ↔
      Runs.Along (streakStep J) (StreakKept J) (J.start now wall, {}) actions :=
  Runs.along_iff_of_invariant (fun _ _ _ hs ht => step_heard hs ht)
    (fun _ a hs => risesOnStreak_iff hs a) (start_heard J now wall)

/-- Fifty prompts for one worker, with tokens for all of them. -/
def fifty : JobRunner CallResult where
  provider := scripted 0 0
  config := { concurrency := some 1 }
  rateLimitRpm := 6000
  input := { entries := List.replicate 50 (.item ⟨"a", "hello"⟩) }

def answerOne (statusCode : ℤ) : Action CallResult 1 :=
  .nth 0 (.reply (.returned { statusCode, text := "hi" }) 0 false)

/-- The entries from number `k` on are read, queued, taken and answered one at a time. -/
def readAndAnswer : ℕ → ℕ → List (Action CallResult 1)
  | _, 0 => []
  | k, left + 1 =>
    List.replicate (if k % 25 = 0 then 3 else 2) (.runner false) ++
      takeOne :: answerOne 200 :: readAndAnswer (k + 1) left

/-- The second prompt is answered by a 500 first; the last is still in its call. -/
def fiftyRun : List (Action CallResult 1) :=
  .runner false :: readAndAnswer 1 1 ++
  [.runner false, .runner false, takeOne, answerOne 500, .nth 0 (.wake 0), answerOne 200] ++
  readAndAnswer 3 47 ++ List.replicate 3 (.runner false) ++ [takeOne]

def fiftyCalling : State fifty.concurrency × StreakHistory :=
  (Runs.exec (streakStep fifty) (fifty.start 0 0, {}) fiftyRun).get (by decide +kernel)

def fiftyDone : State fifty.concurrency × StreakHistory :=
  (streakStep fifty fiftyCalling (answerOne 200)).get (by decide +kernel)

/-- The fiftieth success raises the rate, with the 500 among the last fifty outcomes. -/
theorem rises_on_broken_streak : ∃ (J : JobRunner CallResult)
    (actions : List (Action CallResult J.concurrency)) (q : State J.concurrency × StreakHistory),
    Runs.exec (streakStep J) (J.start 0 0, {}) actions = some q ∧
      ¬ Runs.Along (streakStep J) (RisesOnStreak J) (J.start 0 0, {}) actions := by
  have hcalling : Runs.exec (streakStep fifty) (fifty.start 0 0, {}) fiftyRun = some fiftyCalling :=
    (Option.some_get _).symm
  have hlast : streakStep fifty fiftyCalling (answerOne 200) = some fiftyDone :=
    (Option.some_get _).symm
  have hrises : fiftyCalling.1.ctx.controller.bucket.rate <
      fiftyDone.1.ctx.controller.bucket.rate := by decide +kernel
  have hbroken : ¬ LastSucceed 50 fiftyDone.2.outcomes := by decide +kernel
  refine ⟨fifty, fiftyRun ++ [answerOne 200], fiftyDone,
    Runs.exec_snoc.mpr ⟨fiftyCalling, hcalling, hlast⟩, fun hkept => ?_⟩
  exact hbroken (hkept.apply hcalling fiftyDone hlast hrises).2

end BatchEngine.Core
