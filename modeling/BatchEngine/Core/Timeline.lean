import BatchEngine.Core.Aimd
import BatchEngine.Core.JobTurns

/-!
# What the controller of a job hears

A worker tells the controller of a success and of a 429, and of no other answer. Between
these events it takes tokens and counts retries, which leave the rate alone. So the
controller of a job is the one that `run` built, after the timeline of its answers.
-/

set_option autoImplicit false

namespace BatchEngine.Core

open BatchEngine.Providers
open AdaptiveController (Event SameTuning)

variable {R : Type*}

/-- The answer that wakes a worker, if it is one. -/
def WorkerInput.answer (W : WorkerConfig R) : WorkerInput R → Option Outcome
  | .reply r _ _ => some (outcomeOf (W.provider.complete r))
  | _ => none

def Action.answer {n : ℕ} (W : WorkerConfig R) : Action R n → Option Outcome
  | .worker _ input => input.answer W
  | _ => none

/-- What `process_item` tells the controller of an answer. -/
def eventOf (outcome : Outcome) : Option Event :=
  match (classify outcome).1 with
  | .success => some .success
  | .throttled => some .throttle
  | _ => none

def AdaptiveController.hear (c : AdaptiveController) (now : ℚ) : Option Event → AdaptiveController
  | some e => c.onEvent (now, e)
  | none => c

/-! ## Between the events -/

/-- The controllers differ in tokens and retries only. -/
structure Quiet (c c' : AdaptiveController) : Prop extends SameTuning c c' where
  rate : c'.bucket.rate = c.bucket.rate
  streak : c'.consecutiveSuccesses = c.consecutiveSuccesses
  lastDecreaseAt : c'.lastDecreaseAt = c.lastDecreaseAt

theorem quiet_refl (c : AdaptiveController) : Quiet c c :=
  ⟨⟨rfl, rfl, rfl, rfl, rfl, rfl⟩, rfl, rfl, rfl⟩

theorem Quiet.trans {a b c : AdaptiveController} (h : Quiet a b) (h' : Quiet b c) : Quiet a c :=
  ⟨⟨h'.minRate.trans h.minRate, h'.maxRate.trans h.maxRate,
      h'.decreaseFactor.trans h.decreaseFactor, h'.increaseStep.trans h.increaseStep,
      h'.successStreak.trans h.successStreak, h'.cooldownS.trans h.cooldownS⟩,
    h'.rate.trans h.rate, h'.streak.trans h.streak, h'.lastDecreaseAt.trans h.lastDecreaseAt⟩

/-- An event does the same to both. -/
theorem Quiet.onEvent {c c' : AdaptiveController} (h : Quiet c c') (e : ℚ × Event) :
    Quiet (c.onEvent e) (c'.onEvent e) := by
  obtain ⟨⟨hmin, hmax, hfactor, hstep, hstreak, hcooldown⟩, hrate, hcount, hlast⟩ := h
  obtain ⟨now, e⟩ := e
  have hcooled : c'.cooled now = c.cooled now := by
    simp only [AdaptiveController.cooled, hlast, hcooldown]
  cases e with
  | success =>
    simp only [AdaptiveController.onEvent, AdaptiveController.recordSuccess, hstreak, hcount]
    split
    · exact ⟨⟨hmin, hmax, hfactor, hstep, rfl, hcooldown⟩, by simp [hrate, hmax, hstep], rfl, hlast⟩
    · exact ⟨⟨hmin, hmax, hfactor, hstep, rfl, hcooldown⟩, hrate, rfl, hlast⟩
  | throttle =>
    simp only [AdaptiveController.onEvent, AdaptiveController.recordThrottle, hcooled]
    split
    · exact ⟨⟨hmin, hmax, hfactor, hstep, hstreak, hcooldown⟩, by simp [hrate, hmin, hfactor],
        rfl, rfl⟩
    · exact ⟨⟨hmin, hmax, hfactor, hstep, hstreak, hcooldown⟩, hrate, rfl, hlast⟩

theorem Quiet.hear {c c' : AdaptiveController} (h : Quiet c c') (now : ℚ) (e : Option Event) :
    Quiet (c.hear now e) (c'.hear now e) := by
  cases e with
  | none => exact h
  | some e => exact h.onEvent (now, e)

theorem quiet_acquire (c : AdaptiveController) (now : ℚ) :
    Quiet c { c with bucket := (c.bucket.acquire now).2 } :=
  ⟨⟨rfl, rfl, rfl, rfl, rfl, rfl⟩, TokenBucket.acquire_rate c.bucket now, rfl, rfl⟩

/-! ## The segments -/

theorem quiet_acquirePass (ctx : WorkerContext) (h : InHand) :
    Quiet ctx.controller (acquirePass ctx h).1.controller := by
  have hquiet := quiet_acquire ctx.controller ctx.now
  have hbranch := acquirePass_branch ctx h
  generalize acquirePass ctx h = next at hbranch ⊢
  cases hbranch with
  | granted hgrant =>
    rw [hgrant] at hquiet
    exact hquiet
  | waits hwait =>
    rw [hwait] at hquiet
    exact hquiet

theorem quiet_loopTop (ctx : WorkerContext) (h : InHand) :
    Quiet ctx.controller (loopTop ctx h).1.controller := by
  have hbranch := loopTop_branch ctx h
  generalize loopTop ctx h = next at hbranch ⊢
  cases hbranch with
  | allowed _ _ _ =>
    exact quiet_acquirePass (ctx.withBreaker (ctx.circuitBreaker.allowRequest ctx.now).2)
      { h with attempt := h.attempt + 1 }
  | _ => exact quiet_refl _

theorem quiet_retryOrFail (W : WorkerConfig R) (ctx : WorkerContext) (h : InHand) (f : Failure)
    (u : ℚ) : Quiet ctx.controller (retryOrFail W ctx h f u).1.controller := by
  have hbranch := retryOrFail_branch W ctx h f u
  generalize retryOrFail W ctx h f u = next at hbranch ⊢
  cases hbranch with
  | retried _ _ => exact ⟨⟨rfl, rfl, rfl, rfl, rfl, rfl⟩, rfl, rfl, rfl⟩
  | _ => exact quiet_refl _

theorem quiet_onSpendCheck (W : WorkerConfig R) (ctx : WorkerContext) :
    Quiet ctx.controller (onSpendCheck W ctx).controller := by
  unfold onSpendCheck
  split <;> exact quiet_refl _

theorem quiet_takeItem (ctx : WorkerContext) (x : Queued) :
    Quiet ctx.controller (takeItem ctx x).1.controller := by
  match x with
  | .shutdown => exact quiet_refl _
  | .ticket ⟨_, .error _⟩ => exact quiet_refl _
  | .ticket ⟨seq, .item p⟩ => exact quiet_loopTop ctx ⟨seq, p, 0⟩

theorem eventOf_throttled {outcome : Outcome} (h : (classify outcome).1 = .throttled) :
    eventOf outcome = some .throttle := by
  rw [eventOf, h]

theorem eventOf_none {outcome : Outcome} (hsuccess : (classify outcome).1 ≠ .success)
    (hthrottled : (classify outcome).1 ≠ .throttled) : eventOf outcome = none := by
  unfold eventOf
  split
  · exact absurd ‹_› hsuccess
  · exact absurd ‹_› hthrottled
  · rfl

theorem afterFailure_hears (W : WorkerConfig R) (ctx : WorkerContext) (h : InHand)
    {outcome : Outcome} (u : ℚ) (hsuccess : (classify outcome).1 ≠ .success) :
    Quiet (ctx.controller.hear ctx.now (eventOf outcome))
      (afterFailure W ctx h outcome (.of outcome) u).1.controller := by
  have hbranch := afterFailure_branch W ctx h outcome (.of outcome) u
  generalize afterFailure W ctx h outcome (.of outcome) u = next at hbranch ⊢
  cases hbranch with
  | fatal hfatal =>
    have hnot : (classify outcome).1 ≠ .throttled := by
      intro hthrottled
      rw [show (Failure.of outcome).failureClass = .throttled from hthrottled] at hfatal
      cases hfatal
    rw [eventOf_none hsuccess hnot]
    exact quiet_refl _
  | jittered hthrottled _ _ =>
    rw [eventOf_throttled hthrottled]
    exact quiet_refl _
  | hung hthrottled _ _ =>
    rw [eventOf_throttled hthrottled]
    exact quiet_refl _
  | paused hthrottled _ _ =>
    rw [eventOf_throttled hthrottled]
    exact quiet_refl _
  | throttled hthrottled _ =>
    rw [eventOf_throttled hthrottled]
    exact quiet_retryOrFail W (ctx.withController _) h (.of outcome) u
  | failed _ hnot =>
    rw [eventOf_none hsuccess hnot]
    exact quiet_retryOrFail W ctx h (.of outcome) u

theorem callBranch_hears {W : WorkerConfig R} {ctx : WorkerContext} {h : InHand} {start u : ℚ}
    {r : R} {raises : Bool} {next : Next} (hcall : CallBranch W ctx h start r u raises next) :
    Quiet (ctx.controller.hear ctx.now (eventOf (outcomeOf (W.provider.complete r))))
      next.1.controller := by
  cases hcall with
  | succeeded hresp hclass =>
    rw [eventOf, hclass]
    exact quiet_onSpendCheck W (emitSuccess ctx h _ start)
  | raised hresp hclass _ =>
    rw [eventOf, hclass]
    exact quiet_refl _
  | failed hclass => exact afterFailure_hears W (recordOutcome ctx _) h u hclass

/-- A turn of a worker tells the controller of its answer, and else leaves the rate alone. -/
theorem workerStep_hears {W : WorkerConfig R} {ctx : WorkerContext} {ws : WorkerState}
    {input : WorkerInput R} {next : Next} (hstep : workerStep W ctx ws input = some next) :
    Quiet (ctx.controller.hear ctx.now ((input.answer W).bind eventOf)) next.1.controller := by
  cases workerStep_branch hstep with
  | @took x q _ => exact quiet_takeItem (ctx.withQueue q) x
  | asked _ => exact quiet_loopTop ctx _
  | acquired _ => exact quiet_acquirePass ctx _
  | replied _ hcall => exact callBranch_hears hcall
  | jittered _ _ => exact quiet_refl _
  | resumed _ _ => exact quiet_retryOrFail W ctx _ _ _
  | looped _ => exact quiet_loopTop ctx _

/-! ## The run of a job -/

section Job

variable {J : JobRunner R}

theorem step_hears {s s' : State J.concurrency} {a : Action R J.concurrency}
    (h : step J s a = some s') :
    Quiet (s.ctx.controller.hear s.ctx.now ((a.answer J.toWorkerConfig).bind eventOf))
      s'.ctx.controller := by
  cases a with
  | worker i input =>
    obtain ⟨⟨ctx', ws'⟩, hworker, rfl⟩ := Option.map_eq_some_iff.mp h
    exact workerStep_hears hworker
  | tick dt wall => cases step_turn h; exact quiet_refl _
  | cancel => cases step_turn h; exact quiet_refl _
  | runner raises => cases step_turn h <;> exact quiet_refl _
  | writer => cases step_turn h; exact quiet_refl _
  | writerTimeout => cases step_turn h; exact quiet_refl _

/-- What the controller hears in a run, with the clock's readings. -/
def hearing (J : JobRunner R) : State J.concurrency × List (ℚ × Event) →
    Action R J.concurrency → Option (State J.concurrency × List (ℚ × Event)) :=
  Runs.withHistory (step J) fun s a _ timeline =>
    timeline ++ (((a.answer J.toWorkerConfig).bind eventOf).map fun e => (s.ctx.now, e)).toList

/-- The controller of a run is the one that `run` built, after the timeline of the run. -/
theorem controller_of_timeline {now wall : ℚ} {actions : List (Action R J.concurrency)}
    {s : State J.concurrency} {timeline : List (ℚ × Event)}
    (hrun : Runs.exec (hearing J) (J.start now wall, []) actions = some (s, timeline)) :
    Quiet ((J.start now wall).ctx.controller.after timeline) s.ctx.controller := by
  refine Runs.exec_invariant' (I := fun p : State J.concurrency × List (ℚ × Event) =>
    Quiet ((J.start now wall).ctx.controller.after p.2) p.1.ctx.controller) ?_ (quiet_refl _) hrun
  intro p a q hp hq
  obtain ⟨hstep, htimeline⟩ := Runs.withHistory_some.mp hq
  have hheard := (hp.hear p.1.ctx.now ((a.answer J.toWorkerConfig).bind eventOf)).trans
    (step_hears hstep)
  rw [htimeline, AdaptiveController.after_append]
  cases hevent : (a.answer J.toWorkerConfig).bind eventOf with
  | none =>
    rw [hevent] at hheard
    exact hheard
  | some e =>
    rw [hevent] at hheard
    exact hheard

/-- So in every run its parameters are those that `run` gave it. -/
theorem reachable_tuning {s : State J.concurrency} (h : Reachable J s) :
    SameTuning (J.start 0 0).ctx.controller s.ctx.controller := by
  obtain ⟨now, wall, actions, hrun⟩ := h
  obtain ⟨timeline, hhearing⟩ := Runs.exec_withHistory [] hrun
  obtain ⟨hsame, -, -, -⟩ := controller_of_timeline (J := J) hhearing
  have hafter := AdaptiveController.after_tuning timeline (J.start now wall).ctx.controller
  exact ⟨hsame.minRate.trans hafter.minRate, hsame.maxRate.trans hafter.maxRate,
    hsame.decreaseFactor.trans hafter.decreaseFactor,
    hsame.increaseStep.trans hafter.increaseStep,
    hsame.successStreak.trans hafter.successStreak, hsame.cooldownS.trans hafter.cooldownS⟩

/-- And from three requests a minute on, its rate stays between them. -/
theorem reachable_clamped (hquota : 3 ≤ J.rateLimitRpm) {s : State J.concurrency}
    (h : Reachable J s) : s.ctx.controller.Clamped := by
  obtain ⟨now, wall, actions, hrun⟩ := h
  obtain ⟨timeline, hhearing⟩ := Runs.exec_withHistory [] hrun
  obtain ⟨hsame, hrate, -, -⟩ := controller_of_timeline (J := J) hhearing
  obtain ⟨htuned, hclamped⟩ := AdaptiveController.start_tuned hquota now wall
  have hafter := (AdaptiveController.after_clamped timeline htuned hclamped).2
  exact ⟨by rw [hsame.minRate, hrate]; exact hafter.above,
    by rw [hsame.maxRate, hrate]; exact hafter.below⟩

end Job

end BatchEngine.Core
