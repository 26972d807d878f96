import BatchEngine.Core.Scheduler
import BatchEngine.Lib.PacedDecay
import Mathlib.Tactic.NormNum

/-!
# The AIMD controller over a timeline

The controller hears of successes and of 429s, at clock readings that the timeline gives.
Its rate is a level that is cut at most once in a cooldown. The bounds that `run` derives
from the quota are not always bounds of the quota.
-/

set_option autoImplicit false

namespace BatchEngine.Core

open PacedDecay (Level Move Path)

namespace AdaptiveController

/-- What a worker tells the controller. -/
inductive Event where
  | success
  | throttle
  deriving DecidableEq, Repr

def onEvent (c : AdaptiveController) (e : ℚ × Event) : AdaptiveController :=
  match e.2 with
  | .success => c.recordSuccess e.1
  | .throttle => c.recordThrottle e.1

def after (c : AdaptiveController) (events : List (ℚ × Event)) : AdaptiveController :=
  events.foldl onEvent c

@[simp] theorem after_nil (c : AdaptiveController) : c.after [] = c := rfl

theorem after_cons (c : AdaptiveController) (e : ℚ × Event) (events : List (ℚ × Event)) :
    c.after (e :: events) = (c.onEvent e).after events := rfl

theorem after_append (c : AdaptiveController) (events events' : List (ℚ × Event)) :
    c.after (events ++ events') = (c.after events).after events' := List.foldl_append

/-! ## What an event does -/

/-- The parameters that no event changes. -/
structure SameTuning (c c' : AdaptiveController) : Prop where
  minRate : c'.minRate = c.minRate
  maxRate : c'.maxRate = c.maxRate
  decreaseFactor : c'.decreaseFactor = c.decreaseFactor
  increaseStep : c'.increaseStep = c.increaseStep
  successStreak : c'.successStreakForIncrease = c.successStreakForIncrease
  cooldownS : c'.cooldownS = c.cooldownS

theorem onEvent_tuning (c : AdaptiveController) (e : ℚ × Event) : SameTuning c (c.onEvent e) := by
  obtain ⟨now, e⟩ := e
  cases e with
  | success =>
    simp only [onEvent, recordSuccess]
    split <;> constructor <;> rfl
  | throttle =>
    simp only [onEvent, recordThrottle]
    split <;> constructor <;> rfl

theorem after_tuning (events : List (ℚ × Event)) :
    ∀ c : AdaptiveController, SameTuning c (c.after events) := by
  induction events with
  | nil => exact fun c => ⟨rfl, rfl, rfl, rfl, rfl, rfl⟩
  | cons e events ih =>
    intro c
    have hfirst := onEvent_tuning c e
    have hrest := ih (c.onEvent e)
    exact ⟨hrest.minRate.trans hfirst.minRate, hrest.maxRate.trans hfirst.maxRate,
      hrest.decreaseFactor.trans hfirst.decreaseFactor,
      hrest.increaseStep.trans hfirst.increaseStep,
      hrest.successStreak.trans hfirst.successStreak, hrest.cooldownS.trans hfirst.cooldownS⟩

/-- A success leaves the rate alone or completes a streak. -/
theorem recordSuccess_cases (c : AdaptiveController) (now : ℚ) :
    (c.recordSuccess now).lastDecreaseAt = c.lastDecreaseAt ∧
    ((c.consecutiveSuccesses + 1 < c.successStreakForIncrease ∧
        (c.recordSuccess now).bucket.rate = c.bucket.rate ∧
        (c.recordSuccess now).consecutiveSuccesses = c.consecutiveSuccesses + 1) ∨
      (c.successStreakForIncrease ≤ c.consecutiveSuccesses + 1 ∧
        (c.recordSuccess now).bucket.rate =
          max (min c.maxRate (c.bucket.rate + c.increaseStep)) (1 / 1000000) ∧
        (c.recordSuccess now).consecutiveSuccesses = 0)) := by
  unfold recordSuccess
  by_cases h : c.successStreakForIncrease ≤ c.consecutiveSuccesses + 1
  · rw [if_pos h]
    exact ⟨rfl, Or.inr ⟨h, rfl, rfl⟩⟩
  · rw [if_neg h]
    exact ⟨rfl, Or.inl ⟨not_le.mp h, rfl, rfl⟩⟩

/-- A 429 ends the streak, and cuts the rate unless a cooldown is on. -/
theorem recordThrottle_cases (c : AdaptiveController) (now : ℚ) :
    (c.recordThrottle now).consecutiveSuccesses = 0 ∧
    ((c.cooled now = true ∧ (c.recordThrottle now).lastDecreaseAt = some now ∧
        (c.recordThrottle now).bucket.rate =
          max (max c.minRate (c.bucket.rate * c.decreaseFactor)) (1 / 1000000)) ∨
      (c.cooled now = false ∧ (c.recordThrottle now).lastDecreaseAt = c.lastDecreaseAt ∧
        (c.recordThrottle now).bucket.rate = c.bucket.rate)) := by
  unfold recordThrottle
  cases h : c.cooled now with
  | true => exact ⟨rfl, Or.inl ⟨rfl, rfl, rfl⟩⟩
  | false => exact ⟨rfl, Or.inr ⟨rfl, rfl, rfl⟩⟩

/-! ## Within the bounds -/

/-- Parameters that the controller is meant for. -/
structure Tuned (c : AdaptiveController) : Prop where
  minPos : 0 < c.minRate
  aboveFloor : 1 / 1000000 ≤ c.minRate
  ordered : c.minRate ≤ c.maxRate
  factor : 0 < c.decreaseFactor ∧ c.decreaseFactor < 1
  increaseStep : 0 ≤ c.increaseStep
  cooldown : 0 < c.cooldownS

structure Clamped (c : AdaptiveController) : Prop where
  above : c.minRate ≤ c.bucket.rate
  below : c.bucket.rate ≤ c.maxRate

theorem Tuned.congr {c c' : AdaptiveController} (h : c.Tuned) (hsame : SameTuning c c') :
    c'.Tuned := by
  obtain ⟨hmin, hmax, hfactor, hstep, _, hcooldown⟩ := hsame
  constructor
  · rw [hmin]; exact h.minPos
  · rw [hmin]; exact h.aboveFloor
  · rw [hmin, hmax]; exact h.ordered
  · rw [hfactor]; exact h.factor
  · rw [hstep]; exact h.increaseStep
  · rw [hcooldown]; exact h.cooldown

def level (c : AdaptiveController) : Level ℚ := ⟨c.bucket.rate, c.lastDecreaseAt⟩

theorem cooled_iff {c : AdaptiveController} {now : ℚ} :
    c.cooled now = true ↔ ∀ last, c.lastDecreaseAt = some last → c.cooldownS ≤ now - last := by
  unfold cooled
  cases c.lastDecreaseAt with
  | none => simp
  | some last => simp

/-- A success raises the rate, within the bounds. -/
theorem recordSuccess_clamped {c : AdaptiveController} (hc : c.Tuned) (hr : c.Clamped) (now : ℚ) :
    c.bucket.rate ≤ (c.recordSuccess now).bucket.rate ∧
      (c.recordSuccess now).bucket.rate ≤ c.maxRate := by
  obtain ⟨-, ⟨-, hrate, -⟩ | ⟨-, hrate, -⟩⟩ := recordSuccess_cases c now
  · rw [hrate]
    exact ⟨le_rfl, hr.below⟩
  · have hraised : c.bucket.rate ≤ min c.maxRate (c.bucket.rate + c.increaseStep) :=
      le_min hr.below (le_add_of_nonneg_right hc.increaseStep)
    rw [hrate, max_eq_left (hc.aboveFloor.trans (hr.above.trans hraised))]
    exact ⟨hraised, min_le_left _ _⟩

/-- A 429 cuts the rate, within the bounds, where it is not in a cooldown. -/
theorem recordThrottle_clamped {c : AdaptiveController} (hc : c.Tuned) (hr : c.Clamped) (now : ℚ) :
    c.minRate ≤ (c.recordThrottle now).bucket.rate ∧
      (c.recordThrottle now).bucket.rate ≤ c.bucket.rate ∧
      (c.cooled now = true → (c.recordThrottle now).bucket.rate =
        max c.minRate (c.bucket.rate * c.decreaseFactor)) := by
  obtain ⟨-, ⟨hcooled, -, hrate⟩ | ⟨hcooled, -, hrate⟩⟩ := recordThrottle_cases c now
  · have hfloor : 1 / 1000000 ≤ max c.minRate (c.bucket.rate * c.decreaseFactor) :=
      hc.aboveFloor.trans (le_max_left _ _)
    have hpos : 0 ≤ c.bucket.rate := hc.minPos.le.trans hr.above
    rw [hrate, max_eq_left hfloor]
    exact ⟨le_max_left _ _, max_le hr.above (mul_le_of_le_one_right hpos hc.factor.2.le),
      fun _ => rfl⟩
  · rw [hrate, hcooled]
    exact ⟨hr.above, le_rfl, fun h => absurd h Bool.false_ne_true⟩

theorem onEvent_clamped {c : AdaptiveController} (hc : c.Tuned) (hr : c.Clamped)
    (e : ℚ × Event) : (c.onEvent e).Clamped := by
  have hsame := onEvent_tuning c e
  obtain ⟨now, e⟩ := e
  cases e with
  | success =>
    obtain ⟨hraised, hbelow⟩ := recordSuccess_clamped hc hr now
    exact ⟨hsame.minRate ▸ hr.above.trans hraised, hsame.maxRate ▸ hbelow⟩
  | throttle =>
    obtain ⟨habove, hcut, -⟩ := recordThrottle_clamped hc hr now
    exact ⟨hsame.minRate ▸ habove, hsame.maxRate ▸ hcut.trans hr.below⟩

theorem after_clamped (events : List (ℚ × Event)) : ∀ {c : AdaptiveController}, c.Tuned →
    c.Clamped → (c.after events).Tuned ∧ (c.after events).Clamped := by
  induction events with
  | nil => exact fun hc hr => ⟨hc, hr⟩
  | cons e events ih =>
    exact fun hc hr => ih (hc.congr (onEvent_tuning _ e)) (onEvent_clamped hc hr e)

/-! ## The controller cuts a level -/

theorem onEvent_move {c : AdaptiveController} (hc : c.Tuned) (hr : c.Clamped) (e : ℚ × Event) :
    Move c.minRate c.decreaseFactor c.cooldownS e.1 c.level (c.onEvent e).level := by
  obtain ⟨now, e⟩ := e
  cases e with
  | success => exact .keep (recordSuccess_clamped hc hr now).1 (recordSuccess_cases c now).1
  | throttle =>
    obtain ⟨-, ⟨hcooled, hlast, -⟩ | ⟨-, hlast, hrate⟩⟩ := recordThrottle_cases c now
    · exact .cut (cooled_iff.mp hcooled) ((recordThrottle_clamped hc hr now).2.2 hcooled).ge hlast
    · exact .keep hrate.ge hlast

theorem after_path (events : List (ℚ × Event)) : ∀ {c : AdaptiveController}, c.Tuned →
    c.Clamped → Path c.minRate c.decreaseFactor c.cooldownS c.level (events.map Prod.fst)
      (c.after events).level := by
  induction events with
  | nil => exact fun _ _ => .nil _
  | cons e events ih =>
    intro c hc hr
    have hsame := onEvent_tuning c e
    have hrest := ih (hc.congr hsame) (onEvent_clamped hc hr e)
    rw [hsame.minRate, hsame.decreaseFactor, hsame.cooldownS] at hrest
    exact .cons (onEvent_move hc hr e) hrest

/-- The event lowers the rate. -/
def Decreases (c : AdaptiveController) (e : ℚ × Event) : Prop :=
  (c.onEvent e).bucket.rate < c.bucket.rate

/-- Only a 429 outside a cooldown lowers the rate, and it starts one. -/
theorem Decreases.cut {c : AdaptiveController} (hc : c.Tuned) (hr : c.Clamped) {e : ℚ × Event}
    (h : c.Decreases e) : c.cooled e.1 = true ∧ (c.onEvent e).lastDecreaseAt = some e.1 := by
  obtain ⟨now, e⟩ := e
  cases e with
  | success => exact absurd (recordSuccess_clamped hc hr now).1 (not_le.mpr h)
  | throttle =>
    obtain ⟨-, ⟨hcooled, hlast, -⟩ | ⟨-, -, hrate⟩⟩ := recordThrottle_cases c now
    · exact ⟨hcooled, hlast⟩
    · exact absurd hrate.ge (not_le.mpr h)

/-- Two decreases are a cooldown apart. -/
theorem decreases_apart {c : AdaptiveController} (hc : c.Tuned) (hr : c.Clamped)
    {e e' : ℚ × Event} {between : List (ℚ × Event)} (h : c.Decreases e)
    (h' : (c.after (e :: between)).Decreases e') : c.cooldownS ≤ e'.1 - e.1 := by
  have hsame := onEvent_tuning c e
  have hc₁ := hc.congr hsame
  have hr₁ := onEvent_clamped hc hr e
  obtain ⟨last, hlast, hle⟩ :=
    (after_path between hc₁ hr₁).last_le hc₁.cooldown.le (h.cut hc hr).2
  obtain ⟨hc₂, hr₂⟩ := after_clamped between hc₁ hr₁
  have hcooled := cooled_iff.mp (h'.cut hc₂ hr₂).1 last hlast
  rw [← after_cons, (after_tuning (e :: between) c).cooldownS] at hcooled
  linarith

/-- The rate keeps to its bounds, two decreases are a cooldown apart, and over a stretch of
`span` seconds the rate loses at most `1 + ⌊span / cooldown_s⌋` factors. -/
theorem cannot_collapse {c : AdaptiveController} (hc : c.Tuned) (hr : c.Clamped)
    (events : List (ℚ × Event)) :
    (c.minRate ≤ (c.after events).bucket.rate ∧ (c.after events).bucket.rate ≤ c.maxRate) ∧
    (∀ before e between e' later, events = before ++ e :: (between ++ e' :: later) →
      (c.after before).Decreases e → (c.after (before ++ e :: between)).Decreases e' →
      c.cooldownS ≤ e'.1 - e.1) ∧
    (∀ before during later start span, events = before ++ (during ++ later) →
      (∀ e ∈ during, start ≤ e.1 ∧ e.1 ≤ start + span) →
      max c.minRate ((c.after before).bucket.rate *
          c.decreaseFactor ^ (1 + ⌊span / c.cooldownS⌋₊)) ≤
        (c.after (before ++ during)).bucket.rate) := by
  refine ⟨?_, ?_, ?_⟩
  · have hall := (after_clamped events hc hr).2
    have hsame := after_tuning events c
    exact ⟨hsame.minRate ▸ hall.above, hsame.maxRate ▸ hall.below⟩
  · rintro before e between e' later - h h'
    obtain ⟨hc', hr'⟩ := after_clamped before hc hr
    rw [after_append] at h'
    have hapart := decreases_apart hc' hr' h h'
    rwa [(after_tuning before c).cooldownS] at hapart
  · rintro before during later start span - htimes
    obtain ⟨hc', hr'⟩ := after_clamped before hc hr
    have hsame := after_tuning before c
    have hpath := after_path during hc' hr'
    have hspan : ∀ now ∈ during.map Prod.fst, start ≤ now ∧ now ≤ start + span := by
      intro now hnow
      obtain ⟨e, he, rfl⟩ := List.mem_map.mp hnow
      exact htimes e he
    have hlevel := hpath.value_ge hc'.factor.1.le hc'.factor.2.le hc'.cooldown hc'.minPos.le
      hr'.above hspan
    rw [hsame.minRate, hsame.decreaseFactor, hsame.cooldownS] at hlevel
    rw [after_append]
    exact hlevel

/-- A controller at 10 requests a second. -/
def tenRps : AdaptiveController := { bucket := .new 10 10 0, minRate := 1, maxRate := 15 }

/-- Twenty 429s at once cost a quarter of the rate. -/
theorem cannot_collapse_burst :
    15 / 2 ≤ (tenRps.after (List.replicate 20 (0, .throttle))).bucket.rate := by
  have htuned : tenRps.Tuned := by constructor <;> decide +kernel
  have hclamped : tenRps.Clamped := by constructor <;> decide +kernel
  have htimes : ∀ e ∈ List.replicate 20 ((0 : ℚ), Event.throttle), 0 ≤ e.1 ∧ e.1 ≤ 0 + 0 := by
    decide +kernel
  have hlevel := (cannot_collapse htuned hclamped (List.replicate 20 (0, .throttle))).2.2
    [] _ [] 0 0 (List.append_nil _).symm htimes
  have hbound : 15 / 2 ≤ max tenRps.minRate ((tenRps.after []).bucket.rate *
      tenRps.decreaseFactor ^ (1 + ⌊0 / tenRps.cooldownS⌋₊)) := by decide +kernel
  exact hbound.trans hlevel

/-! ## The bounds of a job -/

variable {R : Type*} {J : JobRunner R}

/-- After any events a 429 does not raise the rate, a success does not lower it, and it is at
most one and a half times the quota. -/
def NeverSpeedsUp (J : JobRunner R) : Prop :=
  ∀ now wall (before : List (ℚ × Event)) (t : ℚ),
    let c := (J.start now wall).ctx.controller.after before
    (c.recordThrottle t).bucket.rate ≤ c.bucket.rate ∧
      c.bucket.rate ≤ (c.recordSuccess t).bucket.rate ∧
      c.bucket.rate ≤ 3 / 2 * J.rateLimitRpm / 60

/-- From three requests a minute on, the floor of the rate is below the quota. -/
theorem start_tuned (h : 3 ≤ J.rateLimitRpm) (now wall : ℚ) :
    (J.start now wall).ctx.controller.Tuned ∧ (J.start now wall).ctx.controller.Clamped := by
  have hrps : (1 / 20 : ℚ) ≤ rateRps J.rateLimitRpm := by
    have hrpm : (3 : ℚ) ≤ J.rateLimitRpm := by exact_mod_cast h
    unfold rateRps
    linarith
  have hmin : max (1 / 20) (rateRps J.rateLimitRpm * (1 / 10)) ≤ rateRps J.rateLimitRpm :=
    max_le hrps (by linarith)
  have hfloor : (1 / 20 : ℚ) ≤ max (1 / 20) (rateRps J.rateLimitRpm * (1 / 10)) := le_max_left _ _
  refine ⟨⟨?_, ?_, ?_, by norm_num [JobRunner.start], by norm_num [JobRunner.start],
    by norm_num [JobRunner.start]⟩, ⟨hmin, ?_⟩⟩
  · exact lt_of_lt_of_le (by norm_num) hfloor
  · exact le_trans (by norm_num) hfloor
  · show _ ≤ rateRps J.rateLimitRpm * (3 / 2)
    exact hmin.trans (by linarith)
  · show rateRps J.rateLimitRpm ≤ rateRps J.rateLimitRpm * (3 / 2)
    linarith

/-- Below that, the first 429 raises the rate to the floor. -/
theorem first_throttle_raises (h : J.rateLimitRpm < 3) (now wall : ℚ) :
    (J.start now wall).ctx.controller.bucket.rate <
      ((J.start now wall).ctx.controller.recordThrottle now).bucket.rate := by
  have hrps : rateRps J.rateLimitRpm < 1 / 20 := by
    have hrpm : (J.rateLimitRpm : ℚ) < 3 := by exact_mod_cast h
    unfold rateRps
    linarith
  calc rateRps J.rateLimitRpm < 1 / 20 := hrps
    _ ≤ max (1 / 20) (rateRps J.rateLimitRpm * (1 / 10)) := le_max_left _ _
    _ ≤ max (max (1 / 20) (rateRps J.rateLimitRpm * (1 / 10)))
        (rateRps J.rateLimitRpm * (3 / 4)) := le_max_left _ _
    _ ≤ _ := le_max_left _ (1 / 1000000)

/-- The controller of a job keeps to the law exactly from three requests a minute on. -/
theorem neverSpeedsUp_iff : NeverSpeedsUp J ↔ 3 ≤ J.rateLimitRpm := by
  constructor
  · intro hkept
    by_contra hlow
    have hfirst := (hkept 0 0 [] 0).1
    exact absurd hfirst (not_le.mpr (first_throttle_raises (not_le.mp hlow) 0 0))
  · intro h now wall before t
    obtain ⟨htuned, hclamped⟩ := start_tuned h now wall
    obtain ⟨hc, hr⟩ := after_clamped before htuned hclamped
    refine ⟨(recordThrottle_clamped hc hr t).2.1, (recordSuccess_clamped hc hr t).1, ?_⟩
    have hmax : (J.start now wall).ctx.controller.maxRate = 3 / 2 * J.rateLimitRpm / 60 := by
      show rateRps J.rateLimitRpm * (3 / 2) = _
      unfold rateRps
      ring
    rw [← hmax, ← (after_tuning before _).maxRate]
    exact hr.below

/-- A job with a quota of `rpm` requests a minute. -/
def quota (rpm : ℕ) : JobRunner Providers.CallResult where
  provider := Providers.scripted 0 0
  rateLimitRpm := rpm
  input := { entries := [] }

/-- With one request a minute the first 429 makes the rate three times the quota. -/
theorem throttle_speeds_up : ∃ J : JobRunner Providers.CallResult, 1 ≤ J.rateLimitRpm ∧
    ((J.start 0 0).ctx.controller.recordThrottle 0).bucket.rate = 3 * rateRps J.rateLimitRpm ∧
    ¬ NeverSpeedsUp J := by
  refine ⟨quota 1, le_rfl, by decide +kernel, fun hkept => ?_⟩
  have hfirst := (hkept 0 0 [] 0).1
  exact absurd hfirst (not_le.mpr (first_throttle_raises (by decide) 0 0))

end AdaptiveController

end BatchEngine.Core
