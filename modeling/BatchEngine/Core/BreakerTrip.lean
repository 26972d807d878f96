import BatchEngine.Core.Probe
import BatchEngine.Lib.Lists

/-!
# When the breaker trips

The breaker keeps a bounded deque of outcomes and clears it when a probe closes it. A
`Monitor` is the same controller with a memory of all outcomes since then: it trips on the
failing fraction of the last `window` of them. The breaker simulates the monitor, so that
its deque is always the end of what was recorded since it last closed.
-/

set_option autoImplicit false

namespace BatchEngine.Core

open CircuitBreaker (Call failureRate onCall fresh)

/-- What decides when a breaker trips and when it recovers. -/
structure TripPolicy where
  window : ℕ
  threshold : ℚ
  cooldownS : ℚ
  probeTimeoutS : ℚ

/-- There are enough outcomes to tell, and too many of the last `window` are failures. -/
def TripPolicy.Trips (p : TripPolicy) (outcomes : List Bool) : Prop :=
  min p.window 10 ≤ (Lists.last p.window outcomes).length ∧
    p.threshold < failureRate (Lists.last p.window outcomes)

instance (p : TripPolicy) (outcomes : List Bool) : Decidable (p.Trips outcomes) :=
  inferInstanceAs (Decidable (_ ∧ _))

/-- A breaker that forgets no outcome until it closes again. -/
structure Monitor where
  history : List Bool := []
  state : BreakerState := .closed
  openedAt : ℚ := 0
  probeInFlight : Bool := false

namespace Monitor

variable (p : TripPolicy)

def record (m : Monitor) (now : ℚ) (isFailure : Bool) : Monitor :=
  let history := m.history ++ [isFailure]
  match m.state with
  | .halfOpen =>
    if isFailure then { history, state := .opened, openedAt := now }
    else { openedAt := m.openedAt }
  | .closed =>
    if p.Trips history then { m with history, state := .opened, openedAt := now }
    else { m with history }
  | .opened => { m with history }

def allowRequest (m : Monitor) (now : ℚ) : Bool × Monitor :=
  match m.state with
  | .opened =>
    if p.cooldownS ≤ now - m.openedAt then
      (true, { m with state := .halfOpen, probeInFlight := true })
    else (false, m)
  | .halfOpen =>
    if m.probeInFlight = true ∧ now - m.openedAt ≤ p.cooldownS + p.probeTimeoutS then (false, m)
    else (true, { m with probeInFlight := false })
  | .closed => (true, m)

def onCall (m : Monitor) (c : ℚ × Call) : Monitor :=
  match c.2 with
  | .allowRequest => (m.allowRequest p c.1).2
  | .record f => m.record p c.1 f

def after (m : Monitor) (calls : List (ℚ × Call)) : Monitor := calls.foldl (Monitor.onCall p) m

/-- The breaker that has only the end of the history. -/
def breaker (m : Monitor) : CircuitBreaker where
  window := p.window
  threshold := p.threshold
  cooldownS := p.cooldownS
  probeTimeoutS := p.probeTimeoutS
  outcomes := Lists.last p.window m.history
  state := m.state
  openedAt := m.openedAt
  probeInFlight := m.probeInFlight

variable {p}

theorem allowRequest_closed {m : Monitor} {now : ℚ} (h : m.state = .closed) :
    m.allowRequest p now = (true, m) := by
  unfold allowRequest
  simp only [h]

theorem allowRequest_opened {m : Monitor} {now : ℚ} (h : m.state = .opened) :
    m.allowRequest p now =
      if p.cooldownS ≤ now - m.openedAt then
        (true, { m with state := .halfOpen, probeInFlight := true })
      else (false, m) := by
  unfold allowRequest
  simp only [h]

theorem allowRequest_halfOpen {m : Monitor} {now : ℚ} (h : m.state = .halfOpen) :
    m.allowRequest p now =
      if m.probeInFlight = true ∧ now - m.openedAt ≤ p.cooldownS + p.probeTimeoutS then (false, m)
      else (true, { m with probeInFlight := false }) := by
  obtain ⟨history, state, openedAt, probe⟩ := m
  subst h
  rfl

theorem append_last (history : List Bool) (f : Bool) :
    CircuitBreaker.append p.window (Lists.last p.window history) f =
      Lists.last p.window (history ++ [f]) :=
  Lists.last_last_append p.window history [f]

/-- A report is the same step for the breaker as for the monitor. -/
theorem record_breaker (m : Monitor) (now : ℚ) (f : Bool) :
    (m.breaker p).record now f = (m.record p now f).breaker p := by
  obtain ⟨history, state, openedAt, probe⟩ := m
  have happend := @append_last p history f
  cases state with
  | halfOpen => cases f <;> simp [CircuitBreaker.record, record, breaker, happend]
  | opened => simp [CircuitBreaker.record, record, breaker, happend]
  | closed =>
    by_cases htrips : p.Trips (history ++ [f])
    · have hbreaker := htrips
      rw [TripPolicy.Trips] at hbreaker
      simp only [CircuitBreaker.record, record, breaker, if_pos htrips, if_pos hbreaker, happend]
    · have hbreaker := htrips
      rw [TripPolicy.Trips] at hbreaker
      simp only [CircuitBreaker.record, record, breaker, if_neg htrips, if_neg hbreaker, happend]

/-- The breaker lets through what the monitor lets through. -/
theorem allowRequest_breaker (m : Monitor) (now : ℚ) :
    (m.breaker p).allowRequest now =
      ((m.allowRequest p now).1, (m.allowRequest p now).2.breaker p) := by
  cases hstate : m.state with
  | closed => rw [CircuitBreaker.allowRequest_closed (b := m.breaker p) hstate,
      allowRequest_closed hstate]
  | opened =>
    rw [CircuitBreaker.allowRequest_opened (b := m.breaker p) hstate, allowRequest_opened hstate]
    show (if p.cooldownS ≤ now - m.openedAt then _ else _) = _
    split <;> rfl
  | halfOpen =>
    have hstale : (m.breaker p).stale now = false ↔
        now - m.openedAt ≤ p.cooldownS + p.probeTimeoutS := by
      show decide (p.cooldownS + p.probeTimeoutS < now - m.openedAt) = false ↔ _
      rw [decide_eq_false_iff_not, not_lt]
    rw [CircuitBreaker.allowRequest_halfOpen (b := m.breaker p) hstate,
      allowRequest_halfOpen hstate]
    by_cases hout : m.probeInFlight = true ∧ now - m.openedAt ≤ p.cooldownS + p.probeTimeoutS
    · rw [if_pos hout, if_pos ⟨hout.1, hstale.mpr hout.2⟩]
    · rw [if_neg hout, if_neg fun h => hout ⟨h.1, hstale.mp h.2⟩]
      rfl

theorem onCall_breaker (m : Monitor) (c : ℚ × Call) :
    CircuitBreaker.onCall (m.breaker p) c = (m.onCall p c).breaker p := by
  obtain ⟨now, c⟩ := c
  cases c with
  | allowRequest => exact congrArg Prod.snd (allowRequest_breaker m now)
  | record f => exact record_breaker m now f

/-- After any calls the breaker is the monitor's breaker. -/
theorem after_breaker (m : Monitor) (calls : List (ℚ × Call)) :
    (m.breaker p).after calls = (m.after p calls).breaker p := by
  induction calls generalizing m with
  | nil => rfl
  | cons c calls ih =>
    show (CircuitBreaker.onCall (m.breaker p) c).after calls = _
    rw [onCall_breaker]
    exact ih (m.onCall p c)

/-- While the monitor is closed its last outcomes are not enough to trip it. -/
def Quiet (p : TripPolicy) (m : Monitor) : Prop := m.state = .closed → ¬ p.Trips m.history

theorem not_trips_nil (hwindow : 1 ≤ p.window) : ¬ p.Trips [] := by
  rintro ⟨hlength, -⟩
  rw [Lists.last_nil, List.length_nil] at hlength
  omega

/-- Asking does not close a monitor. -/
theorem allowRequest_closes_none {m : Monitor} {now : ℚ}
    (hclosed : (m.allowRequest p now).2.state = .closed) : m.state = .closed := by
  cases hstate : m.state with
  | closed => rfl
  | opened =>
    rw [allowRequest_opened hstate] at hclosed
    split at hclosed
    · cases hclosed
    · exact hstate.symm.trans hclosed
  | halfOpen =>
    rw [allowRequest_halfOpen hstate] at hclosed
    split at hclosed
    all_goals exact hstate.symm.trans hclosed

theorem onCall_quiet (hwindow : 1 ≤ p.window) {m : Monitor} (h : Quiet p m) (c : ℚ × Call) :
    Quiet p (m.onCall p c) := by
  obtain ⟨now, c⟩ := c
  intro hclosed
  cases c with
  | allowRequest =>
    change (m.allowRequest p now).2.state = .closed at hclosed
    show ¬ p.Trips (m.allowRequest p now).2.history
    have hbefore := allowRequest_closes_none hclosed
    rw [allowRequest_closed hbefore]
    exact h hbefore
  | record f =>
    change (m.record p now f).state = .closed at hclosed
    show ¬ p.Trips (m.record p now f).history
    cases hstate : m.state with
    | closed =>
      simp only [record, hstate] at hclosed ⊢
      split at hclosed
      · cases hclosed
      · rename_i hquiet
        rwa [if_neg hquiet]
    | opened =>
      simp only [record, hstate] at hclosed
      cases hclosed
    | halfOpen =>
      simp only [record, hstate] at hclosed ⊢
      split at hclosed
      · cases hclosed
      · rename_i hsuccess
        rw [if_neg hsuccess]
        exact not_trips_nil hwindow

theorem after_quiet (hwindow : 1 ≤ p.window) (calls : List (ℚ × Call)) {m : Monitor}
    (h : Quiet p m) : Quiet p (m.after p calls) := by
  induction calls generalizing m with
  | nil => exact h
  | cons c calls ih => exact ih (onCall_quiet hwindow h c)

end Monitor

/-! ## The outcomes since the breaker last closed -/

/-- The outcomes that the calls report, in order. -/
def recorded (calls : List (ℚ × Call)) : List Bool :=
  calls.filterMap fun c =>
    match c.2 with
    | .allowRequest => none
    | .record f => some f

/-- The call takes the breaker from half-open to closed. -/
def Closes (b : CircuitBreaker) (c : ℚ × Call) : Prop :=
  b.state = .halfOpen ∧ (onCall b c).state = .closed

/-- The breaker of a policy, as its constructor leaves it. -/
def TripPolicy.fresh (p : TripPolicy) : CircuitBreaker :=
  CircuitBreaker.fresh p.window p.threshold p.cooldownS p.probeTimeoutS

/-- `later` are the calls since the breaker was created or a call last closed it. -/
structure SinceClosing (p : TripPolicy) (before later : List (ℚ × Call)) : Prop where
  start : before = [] ∨ ∃ calls c, before = calls ++ [c] ∧ Closes (p.fresh.after calls) c
  stays : ∀ calls c rest, later = calls ++ c :: rest →
    ¬ Closes (p.fresh.after (before ++ calls)) c

namespace Monitor

variable {p : TripPolicy}

theorem fresh_breaker (p : TripPolicy) (calls : List (ℚ × Call)) :
    p.fresh.after calls = (Monitor.after p {} calls).breaker p := by
  rw [← after_breaker]
  simp [breaker, TripPolicy.fresh, fresh]

theorem after_append (m : Monitor) (calls later : List (ℚ × Call)) :
    m.after p (calls ++ later) = (m.after p calls).after p later :=
  List.foldl_append

/-- A call that closes the monitor leaves it without a memory. -/
theorem onCall_history_of_closes {m : Monitor} {c : ℚ × Call} (h : Closes (m.breaker p) c) :
    (m.onCall p c).history = [] := by
  obtain ⟨hhalf, hclosed⟩ := h
  rw [onCall_breaker] at hclosed
  change m.state = .halfOpen at hhalf
  change (m.onCall p c).state = .closed at hclosed
  obtain ⟨now, c⟩ := c
  cases c with
  | allowRequest =>
    have hbefore := allowRequest_closes_none hclosed
    rw [hhalf] at hbefore
    cases hbefore
  | record f =>
    change (m.record p now f).state = .closed at hclosed
    show (m.record p now f).history = []
    simp only [record, hhalf] at hclosed ⊢
    split at hclosed
    · cases hclosed
    · rename_i hsuccess
      rw [if_neg hsuccess]

/-- Any other call keeps the memory, and a report adds to it. -/
theorem onCall_history_of_stays {m : Monitor} {c : ℚ × Call} (h : ¬ Closes (m.breaker p) c) :
    (m.onCall p c).history = m.history ++ recorded [c] := by
  obtain ⟨now, c⟩ := c
  cases c with
  | allowRequest =>
    show (m.allowRequest p now).2.history = m.history ++ []
    rw [List.append_nil]
    cases hstate : m.state with
    | closed => rw [allowRequest_closed hstate]
    | opened =>
      rw [allowRequest_opened hstate]
      split <;> rfl
    | halfOpen =>
      rw [allowRequest_halfOpen hstate]
      split <;> rfl
  | record f =>
    show (m.record p now f).history = m.history ++ [f]
    cases hstate : m.state with
    | closed =>
      simp only [record, hstate]
      split <;> rfl
    | opened => simp only [record, hstate]
    | halfOpen =>
      cases f with
      | true => simp only [record, hstate, if_true]
      | false =>
        refine absurd ⟨hstate, ?_⟩ h
        rw [onCall_breaker]
        simp [onCall, record, hstate, breaker]

theorem after_history_of_stays {calls : List (ℚ × Call)} : ∀ {m : Monitor},
    (∀ before c rest, calls = before ++ c :: rest →
      ¬ Closes ((m.after p before).breaker p) c) →
    (m.after p calls).history = m.history ++ recorded calls := by
  induction calls with
  | nil => exact fun _ => (List.append_nil _).symm
  | cons c calls ih =>
    intro m hstays
    have hfirst : (m.onCall p c).history = m.history ++ recorded [c] :=
      onCall_history_of_stays (hstays [] c calls rfl)
    have hrest : ((m.onCall p c).after p calls).history =
        (m.onCall p c).history ++ recorded calls := by
      apply ih
      rintro before d rest rfl
      exact hstays (c :: before) d rest rfl
    show ((m.onCall p c).after p calls).history = _
    rw [hrest, hfirst, List.append_assoc]
    exact congrArg _ (List.filterMap_append (l := [c])).symm

/-- The memory is what was recorded since the breaker last closed. -/
theorem history_since {before later : List (ℚ × Call)} (h : SinceClosing p before later) :
    (Monitor.after p {} (before ++ later)).history = recorded later := by
  have hstart : (Monitor.after p {} before).history = [] := by
    rcases h.start with rfl | ⟨calls, c, rfl, hcloses⟩
    · rfl
    · rw [fresh_breaker] at hcloses
      rw [after_append]
      exact onCall_history_of_closes hcloses
  rw [after_append, after_history_of_stays, hstart, List.nil_append]
  intro calls c rest hlater
  have hstays := h.stays calls c rest hlater
  rwa [fresh_breaker, after_append] at hstays

/-- There is always a last time the breaker closed, or none yet. -/
theorem sinceClosing_exists (p : TripPolicy) (calls : List (ℚ × Call)) :
    ∃ before later, calls = before ++ later ∧ SinceClosing p before later := by
  induction calls using List.reverseRecOn with
  | nil => exact ⟨[], [], rfl, Or.inl rfl, fun calls c rest h => by simp at h⟩
  | append_singleton calls c ih =>
    by_cases hcloses : Closes (p.fresh.after calls) c
    · refine ⟨calls ++ [c], [], (List.append_nil _).symm, Or.inr ⟨calls, c, rfl, hcloses⟩, ?_⟩
      intro calls c rest h
      simp at h
    · obtain ⟨before, later, rfl, hsince⟩ := ih
      refine ⟨before, later ++ [c], List.append_assoc .., hsince.start, ?_⟩
      intro first d rest hsplit
      rcases List.eq_nil_or_concat rest with rfl | ⟨rest, e, rfl⟩
      · obtain ⟨rfl, hd⟩ := List.append_inj' hsplit rfl
        obtain rfl := List.head_eq_of_cons_eq hd
        exact hcloses
      · rw [List.concat_eq_append, ← List.cons_append, ← List.append_assoc] at hsplit
        exact hsince.stays first d rest (List.append_inj' hsplit rfl).1

end Monitor

/-- The breaker after the calls keeps, and is tripped by, the last `window` outcomes since
it last closed. -/
structure TripLaw (p : TripPolicy) (calls : List (ℚ × Call)) : Prop where
  since : ∃ before later, calls = before ++ later ∧ SinceClosing p before later
  stored : ∀ before later, calls = before ++ later → SinceClosing p before later →
    (p.fresh.after calls).outcomes = Lists.last p.window (recorded later)
  quiet : (p.fresh.after calls).state = .closed →
    min p.window 10 ≤ (p.fresh.after calls).outcomes.length →
      failureRate (p.fresh.after calls).outcomes ≤ p.threshold
  opens : ∀ before later, calls = before ++ later → SinceClosing p before later →
    (p.fresh.after calls).state = .closed → ∀ now f,
      (((p.fresh.after calls).record now f).state = .opened ↔ p.Trips (recorded later ++ [f]))

theorem breaker_trips (p : TripPolicy) (hwindow : 1 ≤ p.window) (calls : List (ℚ × Call)) :
    TripLaw p calls := by
  have hbreaker := Monitor.fresh_breaker p calls
  refine ⟨Monitor.sinceClosing_exists p calls, ?_, ?_, ?_⟩
  · rintro before later rfl hsince
    rw [hbreaker, ← Monitor.history_since hsince]
    rfl
  · intro hclosed henough
    rw [hbreaker] at hclosed henough ⊢
    have hquiet : Monitor.Quiet p (Monitor.after p {} calls) :=
      Monitor.after_quiet hwindow calls fun _ => Monitor.not_trips_nil hwindow
    by_contra hrate
    exact hquiet hclosed ⟨henough, not_le.mp hrate⟩
  · rintro before later rfl hsince hclosed now f
    rw [hbreaker] at hclosed ⊢
    change (Monitor.after p {} (before ++ later)).state = .closed at hclosed
    rw [Monitor.record_breaker, ← Monitor.history_since hsince]
    show ((Monitor.after p {} (before ++ later)).record p now f).state = .opened ↔ _
    simp only [Monitor.record, hclosed]
    split <;> simp [*]

/-- Ten failures in a row open a breaker of the shipped window. -/
theorem breaker_trips_shipped :
    TripLaw ⟨100, 1 / 2, 30, 30⟩ (List.replicate 10 (0, .record true)) :=
  breaker_trips ⟨100, 1 / 2, 30, 30⟩ (by decide) _

end BatchEngine.Core
