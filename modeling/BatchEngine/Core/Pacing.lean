import BatchEngine.Core.RateLimit
import BatchEngine.Lib.StepRate

/-!
# The pacing law of the token bucket

Any number of tasks call `acquire` on one bucket while its rate is being changed.
Each pass of an `acquire` loop and each `set_rate` is one event: none of them yields
in the middle, so an interleaving of the tasks is a list of events in time order. A
waiting task may come back at any later time. The law bounds the grants of every
window by the capacity and the integral of the rate in force.
-/

set_option autoImplicit false

namespace BatchEngine.Core.TokenBucket

open StepRate

inductive Event (K : Type*) where
  | attempt (task : ℕ)
  | setRate (rate : K)

section Order

variable {K : Type*} [LinearOrder K]

/-- The clock never goes back, and starts no earlier than the bucket. -/
def InOrder (t₀ : K) (evs : List (K × Event K)) : Prop :=
  (t₀ :: evs.map Prod.fst).Pairwise (· ≤ ·)

theorem inOrder_cons {t₀ : K} {e : K × Event K} {evs : List (K × Event K)} :
    InOrder t₀ (e :: evs) ↔ t₀ ≤ e.1 ∧ InOrder t₀ evs ∧ InOrder e.1 evs := by
  simp only [InOrder, List.map_cons, List.pairwise_cons, List.mem_cons, forall_eq_or_imp]
  tauto

theorem inOrder_le {t₀ : K} {evs : List (K × Event K)} (h : InOrder t₀ evs) :
    ∀ p ∈ evs, t₀ ≤ p.1 := by
  intro p hp
  exact (List.pairwise_cons.mp h).1 p.1 (List.mem_map_of_mem hp)

end Order

section Events

variable {K : Type*} [Field K] [LinearOrder K]

def onEvent (b : TokenBucket K) (e : K × Event K) : TokenBucket K :=
  match e.2 with
  | .attempt _ => (b.acquire e.1).2
  | .setRate r => b.setRate e.1 r

/-- The event is a pass of `acquire` that takes a token. -/
def granted (b : TokenBucket K) (e : K × Event K) : Bool :=
  match e.2 with
  | .attempt _ => (b.acquire e.1).1.isNone
  | .setRate _ => false

def after (b : TokenBucket K) (evs : List (K × Event K)) : TokenBucket K := evs.foldl onEvent b

/-- The times of the grants, in order. -/
def grants : TokenBucket K → List (K × Event K) → List K
  | _, [] => []
  | b, e :: evs =>
    if granted b e then e.1 :: grants (onEvent b e) evs else grants (onEvent b e) evs

def grantsIn (b : TokenBucket K) (evs : List (K × Event K)) (s t : K) : ℕ :=
  ((grants b evs).filter fun x => s ≤ x ∧ x ≤ t).length

/-- The times of the events with the rate each of them leaves in force. -/
def rateLine : TokenBucket K → List (K × Event K) → List (K × K)
  | _, [] => []
  | b, e :: evs => (e.1, (onEvent b e).rate) :: rateLine (onEvent b e) evs

def rateInForce (b : TokenBucket K) (evs : List (K × Event K)) (x : K) : K :=
  valueAt b.rate (rateLine b evs) x

theorem rateLine_times (b : TokenBucket K) (evs : List (K × Event K)) :
    (rateLine b evs).map Prod.fst = evs.map Prod.fst := by
  induction evs generalizing b with
  | nil => rfl
  | cons e evs ih => simp only [rateLine, List.map_cons, ih]

theorem grants_mem_time {b : TokenBucket K} {evs : List (K × Event K)} :
    ∀ x ∈ grants b evs, x ∈ evs.map Prod.fst := by
  induction evs generalizing b with
  | nil => simp [grants]
  | cons e evs ih =>
    intro x hx
    unfold grants at hx
    rw [List.map_cons, List.mem_cons]
    split at hx
    · rcases List.mem_cons.mp hx with rfl | hx
      · exact Or.inl rfl
      · exact Or.inr (ih x hx)
    · exact Or.inr (ih x hx)

theorem after_snoc (b : TokenBucket K) (evs : List (K × Event K)) (e : K × Event K) :
    b.after (evs ++ [e]) = onEvent (b.after evs) e := by
  simp [after]

/-! ## Counting the grants of a window -/

theorem grantsIn_cons (b : TokenBucket K) (e : K × Event K) (evs : List (K × Event K)) (s t : K) :
    grantsIn b (e :: evs) s t =
      (if granted b e = true ∧ s ≤ e.1 ∧ e.1 ≤ t then 1 else 0) +
        grantsIn (onEvent b e) evs s t := by
  simp only [grantsIn, grants]
  by_cases hg : granted b e = true
  · by_cases hw : s ≤ e.1 ∧ e.1 ≤ t
    · simp [hg, hw, add_comm]
    · simp [hg, hw]
  · simp [hg]

/-- No grant falls in a window that ends before the first event. -/
theorem grantsIn_eq_zero {b : TokenBucket K} {evs : List (K × Event K)} {s t : K}
    (h : ∀ p ∈ evs, t < p.1) : grantsIn b evs s t = 0 := by
  unfold grantsIn
  rw [List.length_eq_zero_iff, List.filter_eq_nil_iff]
  intro x hx
  obtain ⟨p, hp, rfl⟩ := List.mem_map.mp (grants_mem_time x hx)
  simp [(h p hp).not_ge]

/-- The left end of a window does not matter once it is before every event. -/
theorem grantsIn_left {b : TokenBucket K} {evs : List (K × Event K)} {s u t : K}
    (hs : ∀ p ∈ evs, s ≤ p.1) (hu : ∀ p ∈ evs, u ≤ p.1) :
    grantsIn b evs s t = grantsIn b evs u t := by
  unfold grantsIn
  congr 1
  apply List.filter_congr
  intro x hx
  obtain ⟨p, hp, rfl⟩ := List.mem_map.mp (grants_mem_time x hx)
  simp [hs p hp, hu p hp]

/-- A grant consumes one of the tokens that the refill left; every other event leaves
them alone. -/
theorem onEvent_cases (b : TokenBucket K) (e : K × Event K) :
    (onEvent b e).lastRefill = e.1 ∧ (onEvent b e).capacity = b.capacity ∧
    ((granted b e = true ∧ 1 ≤ (b.refill e.1).tokens ∧
        (onEvent b e).tokens = (b.refill e.1).tokens - 1 ∧ (onEvent b e).rate = b.rate) ∨
     (granted b e = false ∧ (onEvent b e).tokens = (b.refill e.1).tokens ∧
        ((onEvent b e).rate = b.rate ∨ ∃ r, (onEvent b e).rate = max r (1 / 1000000)))) := by
  obtain ⟨t, ev⟩ := e
  cases ev with
  | attempt task =>
    rcases acquire_cases b t with ⟨h1, h⟩ | ⟨_, h⟩
    · simp [onEvent, granted, h, h1]
    · simp [onEvent, granted, h]
  | setRate r =>
    refine ⟨rfl, rfl, Or.inr ⟨rfl, rfl, Or.inr ⟨r, rfl⟩⟩⟩

variable [IsStrictOrderedRing K]

/-! ## Refilling -/

/-- The level a bucket can be in. -/
structure Sound (b : TokenBucket K) : Prop where
  tokens_nonneg : 0 ≤ b.tokens
  tokens_le : b.tokens ≤ b.capacity
  rate_pos : 0 < b.rate

theorem refill_tokens_of_le {b : TokenBucket K} {now : K} (h : b.lastRefill ≤ now) :
    (b.refill now).tokens = min b.capacity (b.tokens + (now - b.lastRefill) * b.rate) := by
  simp only [refill, max_eq_right (sub_nonneg.mpr h)]

theorem refill_sound {b : TokenBucket K} (hb : b.Sound) (now : K) : (b.refill now).Sound := by
  have hgain : 0 ≤ max 0 (now - b.lastRefill) * b.rate :=
    mul_nonneg (le_max_left _ _) hb.rate_pos.le
  have hcap := hb.tokens_nonneg.trans hb.tokens_le
  exact ⟨le_min hcap (add_nonneg hb.tokens_nonneg hgain), min_le_left _ _, hb.rate_pos⟩

/-- A refill credits at most the rate in force since the last one. -/
theorem refill_tokens_le {b : TokenBucket K} {now : K} (h : b.lastRefill ≤ now) :
    (b.refill now).tokens ≤ b.tokens + b.rate * (now - b.lastRefill) := by
  rw [refill_tokens_of_le h, mul_comm b.rate]
  exact min_le_right _ _

/-- Refilling twice is refilling once: time is credited once. -/
theorem refill_refill {b : TokenBucket K} (hb : b.Sound) {s t : K} (hs : b.lastRefill ≤ s)
    (hst : s ≤ t) : (b.refill s).refill t = b.refill t := by
  have htokens : ((b.refill s).refill t).tokens = (b.refill t).tokens := by
    have hgain : 0 ≤ (t - s) * b.rate := mul_nonneg (sub_nonneg.mpr hst) hb.rate_pos.le
    have hsplit : b.tokens + (s - b.lastRefill) * b.rate + (t - s) * b.rate =
        b.tokens + (t - b.lastRefill) * b.rate := by ring
    rw [refill_tokens_of_le (b := b.refill s) hst, refill_tokens_of_le (hs.trans hst)]
    simp only [refill_capacity, refill_lastRefill, refill_rate]
    rw [refill_tokens_of_le hs, ← min_add_add_right, hsplit, ← min_assoc,
      min_eq_left (le_add_of_nonneg_right hgain)]
  calc (b.refill s).refill t
      = { b.refill t with tokens := ((b.refill s).refill t).tokens } := rfl
    _ = b.refill t := by rw [htokens]

theorem onEvent_sound {b : TokenBucket K} (hb : b.Sound) (e : K × Event K) :
    (onEvent b e).Sound := by
  have hr := refill_sound hb e.1
  have hcap : (b.refill e.1).capacity = b.capacity := rfl
  rcases onEvent_cases b e with ⟨_, hc, ⟨_, h1, ht, hrate⟩ | ⟨_, ht, hrate⟩⟩
  · refine ⟨by rw [ht]; linarith, ?_, by rw [hrate]; exact hb.rate_pos⟩
    rw [ht, hc, ← hcap]
    linarith [hr.tokens_le]
  · refine ⟨by rw [ht]; exact hr.tokens_nonneg, by rw [ht, hc]; exact hr.tokens_le, ?_⟩
    rcases hrate with hrate | ⟨r, hrate⟩
    · rw [hrate]; exact hb.rate_pos
    · rw [hrate]
      exact lt_max_of_lt_right (by norm_num)

theorem after_sound {b : TokenBucket K} (hb : b.Sound) (evs : List (K × Event K)) :
    (b.after evs).Sound ∧ (b.after evs).capacity = b.capacity := by
  induction evs using List.reverseRecOn with
  | nil => exact ⟨hb, rfl⟩
  | append_singleton evs e ih =>
    rw [after_snoc]
    exact ⟨onEvent_sound ih.1 e, (onEvent_cases _ e).2.1.trans ih.2⟩

theorem rateLine_nonneg {b : TokenBucket K} (hb : b.Sound) (evs : List (K × Event K)) :
    ∀ p ∈ rateLine b evs, 0 ≤ p.2 := by
  induction evs generalizing b with
  | nil => simp [rateLine]
  | cons e evs ih =>
    intro p hp
    rcases List.mem_cons.mp hp with rfl | hp
    · exact (onEvent_sound hb e).rate_pos.le
    · exact ih (onEvent_sound hb e) p hp

/-! ## Paying for the grants -/

/-- From the last refill on, the tokens at hand and what the rate delivers pay for
every grant. -/
theorem grantsIn_le_tokens_add_area {evs : List (K × Event K)} :
    ∀ {b : TokenBucket K}, b.Sound → InOrder b.lastRefill evs → ∀ {t : K}, b.lastRefill ≤ t →
      (grantsIn b evs b.lastRefill t : K) ≤
        b.tokens + area b.rate (rateLine b evs) b.lastRefill t := by
  induction evs with
  | nil =>
    intro b hb _ t ht
    have harea := mul_nonneg hb.rate_pos.le (sub_nonneg.mpr ht)
    simp only [grantsIn, grants, List.filter_nil, List.length_nil, Nat.cast_zero, rateLine, area]
    linarith [hb.tokens_nonneg]
  | cons e evs ih =>
    intro b hb horder t ht
    obtain ⟨hle, hold, hnew⟩ := inOrder_cons.mp horder
    simp only [rateLine, area, if_neg (not_lt.mpr hle)]
    by_cases hte : t < e.1
    · have hnone : grantsIn b (e :: evs) b.lastRefill t = 0 := by
        apply grantsIn_eq_zero
        intro p hp
        rcases List.mem_cons.mp hp with rfl | hp
        · exact hte
        · exact hte.trans_le (inOrder_le hnew p hp)
      have harea := mul_nonneg hb.rate_pos.le (sub_nonneg.mpr ht)
      rw [hnone, if_pos hte, Nat.cast_zero]
      linarith [hb.tokens_nonneg]
    · have het := not_lt.mp hte
      obtain ⟨hlast, _, hcase⟩ := onEvent_cases b e
      have hrest := ih (t := t) (onEvent_sound hb e) (by rw [hlast]; exact hnew)
        (by rw [hlast]; exact het)
      rw [hlast, grantsIn_left (u := b.lastRefill) (inOrder_le hnew) (inOrder_le hold)] at hrest
      have hrefill := refill_tokens_le hle
      rw [grantsIn_cons, if_neg hte, Nat.cast_add]
      rcases hcase with ⟨hg, _, htokens, _⟩ | ⟨hg, htokens, _⟩
      · rw [if_pos ⟨hg, hle, het⟩, Nat.cast_one]
        linarith
      · rw [if_neg (by simp [hg]), Nat.cast_zero]
        linarith

/-- A refill at an instant before the next event changes nothing the events see. -/
theorem onEvent_refill {b : TokenBucket K} (hb : b.Sound) {s : K} (hs : b.lastRefill ≤ s)
    {e : K × Event K} (he : s ≤ e.1) :
    onEvent (b.refill s) e = onEvent b e ∧ granted (b.refill s) e = granted b e := by
  have hrr := refill_refill hb hs he
  obtain ⟨t, ev⟩ := e
  cases ev with
  | attempt task => simp only [onEvent, granted, acquire, hrr, and_self]
  | setRate r =>
    refine ⟨?_, rfl⟩
    simp only [onEvent, setRate, hrr]

/-- A window that opens before the bucket's own last refill. -/
theorem grantsIn_le_of_opens_before {b : TokenBucket K} {evs : List (K × Event K)} {s t : K}
    (hb : b.Sound) (horder : InOrder b.lastRefill evs) (hst : s ≤ t) (hsl : s < b.lastRefill) :
    (grantsIn b evs s t : K) ≤ b.capacity + area b.rate (rateLine b evs) s t := by
  by_cases htl : t < b.lastRefill
  · have hnone : grantsIn b evs s t = 0 :=
      grantsIn_eq_zero fun p hp => htl.trans_le (inOrder_le horder p hp)
    have harea := area_nonneg hb.rate_pos.le (rateLine_nonneg hb evs) hst
    have hcap := hb.tokens_nonneg.trans hb.tokens_le
    rw [hnone, Nat.cast_zero]
    linarith
  · have hall : ∀ p ∈ evs, s ≤ p.1 := fun p hp => hsl.le.trans (inOrder_le horder p hp)
    have hline : ∀ p ∈ rateLine b evs, b.lastRefill ≤ p.1 := by
      intro p hp
      have hp' := List.mem_map_of_mem (f := Prod.fst) hp
      rw [rateLine_times] at hp'
      obtain ⟨q, hq, hqp⟩ := List.mem_map.mp hp'
      rw [← hqp]
      exact inOrder_le horder q hq
    have hmain := grantsIn_le_tokens_add_area hb horder (not_lt.mp htl)
    have harea := area_anti_left (t := t) hb.rate_pos.le hsl.le hline
    rw [grantsIn_left hall (inOrder_le horder)]
    linarith [hb.tokens_le]

/-- A window that opens after the last refill and before the next event: a refill at its
opening is invisible to its events. -/
theorem grantsIn_le_of_opens_after {b : TokenBucket K} {e : K × Event K}
    {evs : List (K × Event K)} {s t : K} (hb : b.Sound)
    (horder : InOrder b.lastRefill (e :: evs)) (hst : s ≤ t) (hls : b.lastRefill ≤ s)
    (hse : s ≤ e.1) :
    (grantsIn b (e :: evs) s t : K) ≤
      b.capacity + area b.rate (rateLine b (e :: evs)) s t := by
  obtain ⟨hle, hold, hnew⟩ := inOrder_cons.mp horder
  obtain ⟨hon, hgr⟩ := onEvent_refill hb hls hse
  have hsame : grantsIn b (e :: evs) s t = grantsIn (b.refill s) (e :: evs) s t := by
    rw [grantsIn_cons, grantsIn_cons, hon, hgr]
  have hline : rateLine b (e :: evs) = rateLine (b.refill s) (e :: evs) := by
    simp only [rateLine, hon]
  have hlater : ∀ x ∈ evs.map Prod.fst, s ≤ x := by
    intro x hx
    obtain ⟨p, hp, rfl⟩ := List.mem_map.mp hx
    exact hse.trans (inOrder_le hnew p hp)
  have horder' : InOrder (b.refill s).lastRefill (e :: evs) :=
    inOrder_cons.mpr ⟨hse, List.pairwise_cons.mpr ⟨hlater, (List.pairwise_cons.mp hold).2⟩, hnew⟩
  have hmain := grantsIn_le_tokens_add_area (refill_sound hb s) horder' hst
  have hcap := (refill_sound hb s).tokens_le
  rw [refill_lastRefill, refill_rate] at hmain
  rw [hsame, hline]
  rw [refill_capacity] at hcap
  linarith

/-- The window may open anywhere: the bucket is never fuller than its capacity. -/
theorem grantsIn_le_capacity_add_area {evs : List (K × Event K)} :
    ∀ {b : TokenBucket K}, b.Sound → InOrder b.lastRefill evs → ∀ {s t : K}, s ≤ t →
      (grantsIn b evs s t : K) ≤ b.capacity + area b.rate (rateLine b evs) s t := by
  induction evs with
  | nil =>
    intro b hb _ s t hst
    have harea := mul_nonneg hb.rate_pos.le (sub_nonneg.mpr hst)
    have hcap := hb.tokens_nonneg.trans hb.tokens_le
    simp only [grantsIn, grants, List.filter_nil, List.length_nil, Nat.cast_zero, rateLine, area]
    linarith
  | cons e evs ih =>
    intro b hb horder s t hst
    obtain ⟨hle, hold, hnew⟩ := inOrder_cons.mp horder
    by_cases hes : e.1 < s
    · -- The event is before the window.
      obtain ⟨hlast, hcap, _⟩ := onEvent_cases b e
      have hrest := ih (onEvent_sound hb e) (by rw [hlast]; exact hnew) hst
      rw [grantsIn_cons, if_neg (fun h => (not_lt.mpr h.2.1) hes), zero_add]
      simp only [rateLine, area, if_pos hes]
      rw [hcap] at hrest
      exact hrest
    · by_cases hsl : s < b.lastRefill
      · exact grantsIn_le_of_opens_before hb horder hst hsl
      · exact grantsIn_le_of_opens_after hb horder hst (not_lt.mp hsl) (not_lt.mp hes)

end Events

theorem new_sound {rate capacity t₀ : ℝ} (hrate : 0 < rate) (hcap : 1 ≤ capacity) :
    (new rate capacity t₀).Sound :=
  ⟨zero_le_one.trans hcap, le_refl _, hrate⟩

/-- The tokens stay between zero and the capacity, and every window grants at most
the capacity and the integral of the rate in force over it. -/
theorem grants_paced {rate capacity t₀ : ℝ} (hrate : 0 < rate) (hcap : 1 ≤ capacity)
    {evs : List (ℝ × Event ℝ)} (horder : InOrder t₀ evs) :
    (∀ passed later, evs = passed ++ later →
      0 ≤ ((new rate capacity t₀).after passed).tokens ∧
        ((new rate capacity t₀).after passed).tokens ≤ capacity) ∧
    ∀ s t, s ≤ t → (grantsIn (new rate capacity t₀) evs s t : ℝ) ≤
      capacity + ∫ x in s..t, rateInForce (new rate capacity t₀) evs x := by
  have hb : (new rate capacity t₀).Sound := new_sound hrate hcap
  constructor
  · intro passed later _
    obtain ⟨hs, hc⟩ := after_sound hb passed
    exact ⟨hs.tokens_nonneg, hs.tokens_le.trans hc.le⟩
  · intro s t hst
    have htimes : ((rateLine (new rate capacity t₀) evs).map Prod.fst).Pairwise (· ≤ ·) := by
      rw [rateLine_times]
      exact (List.pairwise_cons.mp horder).2
    have hmain := grantsIn_le_capacity_add_area hb horder hst
    rw [area_eq_integral htimes hst] at hmain
    exact hmain

/-- A burst of two and one more token, with the rate changed in between. -/
theorem grants_paced_burst :
    (grantsIn (new (1 : ℝ) 2 0)
        [(0, .attempt 0), (0, .attempt 1), (0, .attempt 2), (1 / 2, .setRate 4), (1, .attempt 2)]
        0 1 : ℝ) ≤
      2 + ∫ x in (0 : ℝ)..1, rateInForce (new 1 2 0)
        [(0, .attempt 0), (0, .attempt 1), (0, .attempt 2), (1 / 2, .setRate 4), (1, .attempt 2)] x :=
  (grants_paced one_pos one_le_two (by norm_num [InOrder])).2 0 1 zero_le_one

end BatchEngine.Core.TokenBucket
