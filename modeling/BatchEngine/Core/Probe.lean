import BatchEngine.Core.Retry
import Mathlib.Data.List.Induction

/-!
# How many half-open probes can be out at once

Any number of workers call `allow_request` and `record` on one breaker. Neither
yields, so an interleaving is a list of calls in time order. The stale test that
recovers a lost probe is measured from the opening of the breaker: it decides
whether a second probe gets out while the first is still young.
-/

set_option autoImplicit false

namespace BatchEngine.Core.CircuitBreaker

/-- The breaker as its constructor leaves it. -/
def fresh (window : ℕ) (threshold cooldownS probeTimeoutS : ℚ) : CircuitBreaker :=
  { window, threshold, cooldownS, probeTimeoutS }

/-- `allow_request` at `t` returns `True` and leaves the breaker half-open. -/
def AdmitsProbe (b : CircuitBreaker) (t : ℚ) : Prop :=
  (b.allowRequest t).1 = true ∧ (b.allowRequest t).2.state = .halfOpen

/-- In the history `calls`, state `p` admits a probe at `t`, and state `q` is asked
again at `t'`, with no `record` in between and before `t + probe_timeout_s`. -/
def AskedAgain (b : CircuitBreaker) (calls : List (ℚ × Call)) (p : CircuitBreaker) (t : ℚ)
    (q : CircuitBreaker) (t' : ℚ) : Prop :=
  ∃ (before : List (ℚ × Call)) (between : List ℚ) (later : List (ℚ × Call)),
    calls = before ++ (t, .allowRequest) ::
      (between.map (fun x => (x, Call.allowRequest)) ++ (t', .allowRequest) :: later) ∧
    p = b.after before ∧ AdmitsProbe p t ∧
    q = (p.allowRequest t).2.after (between.map fun x => (x, Call.allowRequest)) ∧
    t' < t + b.probeTimeoutS

/-- Until the next `record`, every other call within the probe's time is refused. -/
def OneProbe (b : CircuitBreaker) (calls : List (ℚ × Call)) : Prop :=
  ∀ p t q t', AskedAgain b calls p t q t' → (q.allowRequest t').1 = false

/-- No call within a probe's time comes later than `cooldown_s + probe_timeout_s`
after the breaker opened. -/
def AskedEarly (b : CircuitBreaker) (calls : List (ℚ × Call)) : Prop :=
  ∀ p t q t', AskedAgain b calls p t q t' → t' - p.openedAt ≤ b.cooldownS + b.probeTimeoutS

/-! ## What a call leaves unchanged -/

/-- The configuration that the tests read. -/
def SameConfig (b b' : CircuitBreaker) : Prop :=
  b'.cooldownS = b.cooldownS ∧ b'.probeTimeoutS = b.probeTimeoutS

theorem allowRequest_config (b : CircuitBreaker) (t : ℚ) :
    SameConfig b (b.allowRequest t).2 ∧ (b.allowRequest t).2.openedAt = b.openedAt := by
  cases h : b.state with
  | opened =>
    rw [allowRequest_opened h]
    split <;> exact ⟨⟨rfl, rfl⟩, rfl⟩
  | closed => rw [allowRequest_closed h]; exact ⟨⟨rfl, rfl⟩, rfl⟩
  | halfOpen =>
    rw [allowRequest_halfOpen h]
    split <;> exact ⟨⟨rfl, rfl⟩, rfl⟩

theorem record_config (b : CircuitBreaker) (t : ℚ) (f : Bool) : SameConfig b (b.record t f) := by
  unfold record
  cases b.state <;> dsimp only <;> (try split) <;> exact ⟨rfl, rfl⟩

theorem onCall_config (b : CircuitBreaker) (c : ℚ × Call) : SameConfig b (onCall b c) := by
  obtain ⟨t, c⟩ := c
  cases c with
  | allowRequest => exact (allowRequest_config b t).1
  | record f => exact record_config b t f

theorem after_config (b : CircuitBreaker) (calls : List (ℚ × Call)) :
    SameConfig b (b.after calls) := by
  induction calls generalizing b with
  | nil => exact ⟨rfl, rfl⟩
  | cons c calls ih =>
    have h := ih (onCall b c)
    have hc := onCall_config b c
    exact ⟨h.1.trans hc.1, h.2.trans hc.2⟩

theorem allowRequest_keeps_halfOpen {b : CircuitBreaker} {t : ℚ} (h : b.state = .halfOpen) :
    (b.allowRequest t).2.state = .halfOpen := by
  rw [allowRequest_halfOpen h]
  split <;> exact h

/-- Calls of `allow_request` alone neither leave half-open nor move its opening time. -/
theorem after_allows {b : CircuitBreaker} (h : b.state = .halfOpen) (xs : List ℚ) :
    (b.after (xs.map fun x => (x, Call.allowRequest))).state = .halfOpen ∧
      (b.after (xs.map fun x => (x, Call.allowRequest))).openedAt = b.openedAt := by
  induction xs generalizing b with
  | nil => exact ⟨h, rfl⟩
  | cons x xs ih =>
    obtain ⟨hs, ho⟩ := ih (b := (b.allowRequest x).2) (allowRequest_keeps_halfOpen h)
    exact ⟨hs, ho.trans (allowRequest_config b x).2⟩

/-! ## The flag of a half-open breaker -/

/-- The probe flag of a half-open breaker is only ever cleared by the stale test, so a
half-open breaker without the flag is past it. -/
def FlagLostLate (b : CircuitBreaker) (now : ℚ) : Prop :=
  b.state = .halfOpen → b.probeInFlight = false → b.stale now = true

theorem stale_mono {b : CircuitBreaker} {t u : ℚ} (htu : t ≤ u) (h : b.stale t = true) :
    b.stale u = true := by
  simp only [stale, decide_eq_true_eq] at h ⊢
  linarith

theorem onCall_flagLostLate {b : CircuitBreaker} {c : ℚ × Call} (h : FlagLostLate b c.1) :
    FlagLostLate (onCall b c) c.1 := by
  obtain ⟨t, c⟩ := c
  intro hs hf
  cases c with
  | allowRequest =>
    change (b.allowRequest t).2.state = .halfOpen at hs
    change (b.allowRequest t).2.probeInFlight = false at hf
    show (b.allowRequest t).2.stale t = true
    cases hb : b.state with
    | opened =>
      rw [allowRequest_opened hb] at hs hf
      split at hf
      · cases hf
      · rw [if_neg ‹_›, hb] at hs
        cases hs
    | closed =>
      rw [allowRequest_closed hb, hb] at hs
      cases hs
    | halfOpen =>
      rw [allowRequest_halfOpen hb] at hf ⊢
      split at hf
      · exact absurd hf (by simp_all)
      · rename_i hcond
        rw [if_neg hcond]
        by_cases hp : b.probeInFlight = true
        · by_contra hstale
          exact hcond ⟨hp, Bool.not_eq_true _ ▸ hstale⟩
        · exact h hb (Bool.not_eq_true _ ▸ hp)
  | record f =>
    change (b.record t f).state = .halfOpen at hs
    cases hb : b.state with
    | halfOpen =>
      rw [record_halfOpen hb] at hs
      cases f <;> cases hs
    | opened =>
      unfold record at hs
      simp only [hb] at hs
      cases hs
    | closed =>
      unfold record at hs
      simp only [hb] at hs
      split at hs <;> simp_all

theorem after_flagLostLate {b : CircuitBreaker} {calls : List (ℚ × Call)}
    (hb : b.state = .closed) {now : ℚ} (hnow : ∀ c ∈ calls, c.1 ≤ now)
    (hsorted : (calls.map Prod.fst).Pairwise (· ≤ ·)) : FlagLostLate (b.after calls) now := by
  induction calls using List.reverseRecOn generalizing now with
  | nil =>
    intro hs
    change b.state = .halfOpen at hs
    rw [hb] at hs
    cases hs
  | append_singleton calls c ih =>
    rw [List.map_append, List.pairwise_append] at hsorted
    have hbefore : ∀ d ∈ calls, d.1 ≤ c.1 := fun d hd =>
      hsorted.2.2 d.1 (List.mem_map_of_mem hd) c.1 (by simp)
    have hprev := onCall_flagLostLate (ih hbefore hsorted.1)
    have hstep : b.after (calls ++ [c]) = onCall (b.after calls) c := by simp [after]
    rw [hstep]
    intro hs hf
    exact stale_mono (hnow c (by simp)) (hprev hs hf)

/-- While a probe is out and not stale, calls are refused and change nothing. -/
theorem after_allows_of_not_stale {b : CircuitBreaker} (h : b.state = .halfOpen)
    (hp : b.probeInFlight = true) {xs : List ℚ} (hxs : ∀ x ∈ xs, b.stale x = false) :
    b.after (xs.map fun x => (x, Call.allowRequest)) = b := by
  induction xs with
  | nil => rfl
  | cons x xs ih =>
    have hx : onCall b (x, .allowRequest) = b := by
      show (b.allowRequest x).2 = b
      rw [allowRequest_halfOpen h, if_pos ⟨hp, hxs x List.mem_cons_self⟩]
    have hcons : b.after ((x :: xs).map fun x => (x, Call.allowRequest)) =
        (onCall b (x, .allowRequest)).after (xs.map fun x => (x, Call.allowRequest)) := rfl
    rw [hcons, hx]
    exact ih fun y hy => hxs y (List.mem_cons_of_mem x hy)

/-- A probe that is admitted before the stale test can fire is admitted with the flag. -/
theorem admitsProbe_flag {b : CircuitBreaker} {t : ℚ} (h : AdmitsProbe b t)
    (hlate : FlagLostLate b t) (hearly : b.stale t = false) :
    (b.allowRequest t).2.probeInFlight = true := by
  obtain ⟨hallow, hhalf⟩ := h
  cases hb : b.state with
  | opened =>
    rw [allowRequest_opened hb] at hallow ⊢
    split at hallow
    · rw [if_pos ‹_›]
    · cases hallow
  | closed =>
    rw [allowRequest_closed hb, hb] at hhalf
    cases hhalf
  | halfOpen =>
    rw [allowRequest_halfOpen hb] at hallow
    split at hallow
    · cases hallow
    · rename_i hcond
      have hp : ¬ b.probeInFlight = true := fun hp => hcond ⟨hp, hearly⟩
      have := hlate hb (Bool.not_eq_true _ ▸ hp)
      rw [hearly] at this
      cases this

/-! ## The law -/

section Law

variable {window : ℕ} {threshold cooldownS probeTimeoutS : ℚ} {calls : List (ℚ × Call)}
  {p q : CircuitBreaker} {t t' : ℚ}

/-- The second of two requests is read from the breaker that admitted the first. -/
theorem askedAgain_second
    (hask : AskedAgain (fresh window threshold cooldownS probeTimeoutS) calls p t q t') :
    q.state = .halfOpen ∧ q.openedAt = p.openedAt ∧ q.cooldownS = cooldownS ∧
      q.probeTimeoutS = probeTimeoutS := by
  obtain ⟨before, between, later, _, hp, hadmit, hq, _⟩ := hask
  obtain ⟨hqs, hqo⟩ := after_allows hadmit.2 between
  rw [← hq] at hqs hqo
  have hbefore := after_config (fresh window threshold cooldownS probeTimeoutS) before
  have hfirst := allowRequest_config p t
  have hbetween := after_config (p.allowRequest t).2 (between.map fun x => (x, Call.allowRequest))
  rw [← hp] at hbefore
  rw [← hq] at hbetween
  exact ⟨hqs, hqo.trans hfirst.2, hbetween.1.trans (hfirst.1.1.trans hbefore.1),
    hbetween.2.trans (hfirst.1.2.trans hbefore.2)⟩

/-- Until the breaker turns stale the first probe keeps its flag, and holds the second back. -/
theorem askedAgain_refused
    (hsorted : (calls.map Prod.fst).Pairwise (· ≤ ·))
    (hask : AskedAgain (fresh window threshold cooldownS probeTimeoutS) calls p t q t')
    (hbound : t' - p.openedAt ≤ cooldownS + probeTimeoutS) : (q.allowRequest t').1 = false := by
  obtain ⟨before, between, later, hcalls, hp, hadmit, hq, _⟩ := hask
  rw [hcalls, List.map_append, List.map_cons, List.map_append, List.map_map, List.map_cons,
    List.pairwise_append, List.pairwise_cons] at hsorted
  obtain ⟨hsb, ⟨ht, hrest⟩, hbt⟩ := hsorted
  rw [List.pairwise_append] at hrest
  have hbetween : ∀ x ∈ between, x ≤ t' := fun x hx =>
    hrest.2.2 x (List.mem_map.mpr ⟨x, hx, rfl⟩) t' (by simp)
  have htt' : t ≤ t' := ht t' (by simp)
  have hconfig := after_config (fresh window threshold cooldownS probeTimeoutS) before
  rw [← hp] at hconfig
  have hnever : ∀ x, x ≤ t' → p.stale x = false := by
    intro x hx
    simp only [stale, hconfig.1, hconfig.2, decide_eq_false_iff_not, not_lt]
    simp only [fresh]
    linarith
  have hlate : FlagLostLate p t := by
    rw [hp]
    refine after_flagLostLate rfl (fun c hc => ?_) hsb
    exact hbt c.1 (List.mem_map_of_mem hc) t (by simp)
  have hflag := admitsProbe_flag hadmit hlate (hnever t htt')
  have hstale : ∀ x, x ≤ t' → (p.allowRequest t).2.stale x = false := by
    intro x hx
    obtain ⟨hc, ho⟩ := allowRequest_config p t
    have h := hnever x hx
    simp only [stale, hc.1, hc.2, ho] at h ⊢
    exact h
  have hsame := after_allows_of_not_stale hadmit.2 hflag fun x hx => hstale x (hbetween x hx)
  rw [hq, hsame, allowRequest_halfOpen hadmit.2, if_pos ⟨hflag, hstale t' (le_refl _)⟩]

/-- At most one young probe is out exactly as long as nobody asks again, within a
probe's time, later than `cooldown_s + probe_timeout_s` after the opening. -/
theorem oneProbe_iff_askedEarly (hsorted : (calls.map Prod.fst).Pairwise (· ≤ ·)) :
    OneProbe (fresh window threshold cooldownS probeTimeoutS) calls ↔
      AskedEarly (fresh window threshold cooldownS probeTimeoutS) calls := by
  constructor
  · intro hone p t q t' hask
    have hrefused := hone p t q t' hask
    obtain ⟨hqs, hqo, hcooldown, htimeout⟩ := askedAgain_second hask
    rw [allowRequest_halfOpen hqs] at hrefused
    split at hrefused
    · rename_i hcond
      have hstale := hcond.2
      simp only [stale, hqo, hcooldown, htimeout, decide_eq_false_iff_not, not_lt] at hstale
      exact hstale
    · cases hrefused
  · intro hearly p t q t' hask
    exact askedAgain_refused hsorted hask (hearly p t q t' hask)

end Law

/-- Ten failures at time 0 open the default breaker; the first two requests after a
quiet minute are both let through. -/
def quietMinute : List (ℚ × Call) :=
  List.replicate 10 (0, .record true) ++ [(100, .allowRequest), (401 / 4, .allowRequest)]

theorem oneProbe_fails : ¬ OneProbe (fresh 100 (1 / 2) 30 30) quietMinute := by
  intro h
  let p := (fresh 100 (1 / 2) 30 30).after (List.replicate 10 (0, .record true))
  have hask : AskedAgain (fresh 100 (1 / 2) 30 30) quietMinute p 100 (p.allowRequest 100).2
      (401 / 4) :=
    ⟨List.replicate 10 (0, .record true), [], [], rfl, rfl,
      ⟨by decide +kernel, by decide +kernel⟩, rfl, by decide +kernel⟩
  have hrefused := h _ _ _ _ hask
  exact absurd hrefused (by decide +kernel)

theorem oneProbe_iff_askedEarly_quietMinute :
    OneProbe (fresh 100 (1 / 2) 30 30) quietMinute ↔
      AskedEarly (fresh 100 (1 / 2) 30 30) quietMinute :=
  oneProbe_iff_askedEarly (by decide +kernel)

end BatchEngine.Core.CircuitBreaker
