import BatchEngine.Core.JobTurns

/-!
# Whose outcome decides a half-open breaker

`record` is not told which request its outcome belongs to. While the breaker is
half-open it takes any outcome for the probe's, also that of a slow request that was
admitted before the breaker opened. A history variable remembers which of the
outstanding requests were admitted in the present half-open phase.
-/

set_option autoImplicit false

namespace BatchEngine.Core

open BatchEngine.Providers

variable {R : Type*} {J : JobRunner R}

/-- Admitted by the breaker and not yet recorded. -/
def WorkerState.outstanding (ws : WorkerState) : Bool := ws.isAcquiring || ws.isCalling

def State.breaker {n : ℕ} (s : State n) : BreakerState := s.ctx.circuitBreaker.state

/-- Which workers hold a request that was admitted in the present half-open phase, after
a step. A request is a probe if it leaves the breaker half-open when it is admitted, and
an opening of the breaker forgets all earlier ones. -/
def observe {n : ℕ} (s : State n) (a : Action R n) (s' : State n) (probes : Fin n → Bool) :
    Fin n → Bool :=
  if s.breaker ≠ .opened ∧ s'.breaker = .opened then fun _ => false
  else match a with
    | .worker i _ =>
      if (s'.workers i).outstanding ∧ ¬ (s.workers i).outstanding then
        Function.update probes i (s'.breaker = .halfOpen)
      else probes
    | _ => probes

/-- A job together with its probes. -/
abbrev Observed (J : JobRunner R) := State J.concurrency × (Fin J.concurrency → Bool)

def observedStep (J : JobRunner R) : Observed J → Action R J.concurrency → Option (Observed J) :=
  Runs.withHistory (step J) observe

/-- The probes observe every run of the job, and steer none. -/
theorem exec_observed_iff {s u : State J.concurrency} {actions : List (Action R J.concurrency)}
    (probes : Fin J.concurrency → Bool) :
    (∃ probes', Runs.exec (observedStep J) (s, probes) actions = some (u, probes')) ↔
      Runs.exec (step J) s actions = some u := by
  constructor
  · rintro ⟨probes', h⟩
    exact Runs.exec_of_withHistory h
  · exact Runs.exec_withHistory probes

/-- If the step leaves half-open, then through the answer to a probe. -/
def ProbeDecides (J : JobRunner R) (p : Observed J) (a : Action R J.concurrency) : Prop :=
  ∀ q, observedStep J p a = some q → p.1.breaker = .halfOpen → q.1.breaker ≠ .halfOpen →
    ∃ i input, a = .worker i input ∧ (p.1.workers i).isCalling = true ∧ p.2 i = true

/-- If the step turns the breaker half-open, then no request is outstanding before it. -/
def ProbesAlone (J : JobRunner R) (p : Observed J) (a : Action R J.concurrency) : Prop :=
  ∀ q, observedStep J p a = some q → p.1.breaker = .opened → q.1.breaker = .halfOpen →
    ∀ i, (p.1.workers i).outstanding = false

/-! ## A turn and the breaker -/

/-- How a turn uses the breaker, and what becomes of the worker's request. -/
inductive Consults (ws ws' : WorkerState) : List CircuitBreaker.Call → Prop
  | silent (hkept : ws'.outstanding = true → ws.outstanding = true) : Consults ws ws' []
  | asked (hfree : ws.outstanding = false) : Consults ws ws' [.allowRequest]
  | reported {isFailure : Bool} (hcalling : ws.isCalling = true)
      (hdone : ws'.outstanding = false) : Consults ws ws' [.record isFailure]

theorem loopTurn_consults {ctx : WorkerContext} {h : InHand} {ws ws' : WorkerState} {e : Effect}
    (hfree : ws.outstanding = false) (hturn : LoopTurn ctx h ws' e) :
    Consults ws ws' e.asks := by
  cases hturn with
  | stopped _ _ => exact .silent fun h => by cases h
  | _ => exact .asked hfree

theorem retryTurn_done {h : InHand} {ws' : WorkerState} {e : Effect} (hturn : RetryTurn h ws' e) :
    ws'.outstanding = false ∧ e.asks = [] := by
  cases hturn <;> exact ⟨rfl, rfl⟩

theorem callTurn_done {W : WorkerConfig R} {ctx' : WorkerContext} {h : InHand} {outcome : Outcome}
    {raises : Bool} {ws' : WorkerState} {e : Effect}
    (hturn : CallTurn W ctx' h outcome raises ws' e) : ws'.outstanding = false := by
  cases hturn with
  | failed _ _ hretry => exact (retryTurn_done hretry).1
  | _ => rfl

theorem turn_consults {W : WorkerConfig R} {ctx ctx' : WorkerContext} {ws ws' : WorkerState}
    {input : WorkerInput R} {e : Effect} (hturn : Turn W ctx ctx' ws input ws' e) :
    Consults ws ws' e.asks := by
  cases hturn with
  | shutdown => exact .silent fun h => by cases h
  | passed => exact .silent fun h => by cases h
  | taken hloop =>
    have hfree : WorkerState.idle.outstanding = false := rfl
    have hconsults := loopTurn_consults hfree hloop
    exact hconsults
  | asked hloop => exact loopTurn_consults rfl hloop
  | looped hloop => exact loopTurn_consults rfl hloop
  | waited => exact .silent fun _ => rfl
  | granted => exact .silent fun _ => rfl
  | replied hcall => exact .reported rfl (callTurn_done hcall)
  | jittered => exact .silent fun h => by cases h
  | resumed hretry =>
    obtain ⟨hdone, hasks⟩ := retryTurn_done hretry
    rw [hasks]
    exact .silent fun h => by rw [hdone] at h; cases h

theorem allowRequest_halfOpen_iff (b : CircuitBreaker) (t : ℚ) (hb : b.state ≠ .opened) :
    (b.allowRequest t).2.state = .halfOpen ↔ b.state = .halfOpen := by
  cases h : b.state with
  | closed => rw [CircuitBreaker.allowRequest_closed h, h]
  | opened => exact absurd h hb
  | halfOpen =>
    rw [CircuitBreaker.allowRequest_halfOpen h]
    split <;> simp [h]

theorem record_not_halfOpen (b : CircuitBreaker) (t : ℚ) (isFailure : Bool) :
    (b.record t isFailure).state ≠ .halfOpen := by
  cases h : b.state with
  | halfOpen =>
    rw [CircuitBreaker.record_halfOpen h]
    cases isFailure <;> simp
  | closed =>
    unfold CircuitBreaker.record
    simp only [h]
    split <;> simp
  | opened =>
    unfold CircuitBreaker.record
    simp [h]

/-! ## The invariant -/

/-- While the breaker is half-open, every outstanding request is a probe. -/
def OnlyProbesOut (p : Observed J) : Prop :=
  p.1.breaker = .halfOpen → ∀ i, (p.1.workers i).outstanding = true → p.2 i = true

theorem not_opens {n : ℕ} {s s' : State n} (hhalf : s'.breaker = .halfOpen) :
    ¬ (s.breaker ≠ .opened ∧ s'.breaker = .opened) := by
  rintro ⟨-, hopen⟩
  rw [hopen] at hhalf
  cases hhalf

/-- A step to half-open forgets no probe, and counts the request it admits. -/
theorem observe_worker {n : ℕ} {s s' : State n} {i : Fin n} {input : WorkerInput R}
    {probes : Fin n → Bool} (hhalf : s'.breaker = .halfOpen) (j : Fin n) :
    observe s (.worker i input) s' probes j =
      if j = i ∧ (s'.workers i).outstanding ∧ ¬ (s.workers i).outstanding then true
      else probes j := by
  unfold observe
  rw [if_neg (not_opens hhalf)]
  by_cases hadmitted : (s'.workers i).outstanding ∧ ¬ (s.workers i).outstanding
  · simp only [if_pos hadmitted, and_iff_left hadmitted, hhalf, decide_true]
    exact Function.update_apply probes i true j
  · simp only [if_neg hadmitted, if_neg fun h : j = i ∧ _ => hadmitted h.2]

theorem step_onlyProbesOut {p q : Observed J} {a : Action R J.concurrency} (hp : OnlyProbesOut p)
    (halone : ProbesAlone J p a) (h : observedStep J p a = some q) : OnlyProbesOut q := by
  have halone := halone q h
  obtain ⟨hstep, hhistory⟩ := Runs.withHistory_some.mp h
  obtain ⟨s, probes⟩ := p
  obtain ⟨s', probes'⟩ := q
  change probes' = observe s a s' probes at hhistory
  change step J s a = some s' at hstep
  intro hhalf j hj
  change s'.breaker = .halfOpen at hhalf
  change (s'.workers j).outstanding = true at hj
  show probes' j = true
  cases step_turn hstep with
  | @worker i input ctx' ws' e hturn hdoes =>
    have hbreaker := hdoes.breaker
    have hconsults := turn_consults hturn
    generalize e.asks = asks at hbreaker hconsults
    rw [hhistory, observe_worker hhalf j]
    split
    · rfl
    rename_i hkept
    change (Function.update s.workers i ws' j).outstanding = true at hj
    change ¬ (j = i ∧ (Function.update s.workers i ws' i).outstanding ∧ _) at hkept
    change ctx'.circuitBreaker.state = .halfOpen at hhalf
    cases hconsults with
    | silent hsame =>
      refine hp (by rw [← hhalf, hbreaker]; rfl) j ?_
      by_cases hji : j = i
      · subst hji
        rw [Function.update_self] at hj
        exact hsame hj
      · rwa [Function.update_of_ne hji] at hj
    | asked hfree =>
      have hother : j ≠ i := by
        rintro rfl
        exact hkept ⟨rfl, hj, by rw [hfree]; exact Bool.false_ne_true⟩
      rw [Function.update_of_ne hother] at hj
      by_cases hopened : s.ctx.circuitBreaker.state = .opened
      · exact absurd hj (Bool.eq_false_iff.mp (halone hopened hhalf j))
      · rw [hbreaker] at hhalf
        exact hp ((allowRequest_halfOpen_iff _ _ hopened).mp hhalf) j hj
    | reported _ _ =>
      rw [hbreaker] at hhalf
      exact absurd hhalf (record_not_halfOpen _ _ _)
  | _ =>
    rw [hhistory]
    unfold observe
    rw [if_neg (not_opens hhalf)]
    exact hp hhalf j hj

/-- While only probes are out, only a probe's answer leaves half-open. -/
theorem OnlyProbesOut.decides {p : Observed J} (hp : OnlyProbesOut p)
    (a : Action R J.concurrency) : ProbeDecides J p a := by
  intro q h hhalf hleft
  obtain ⟨hstep, -⟩ := Runs.withHistory_some.mp h
  obtain ⟨s, probes⟩ := p
  obtain ⟨s', probes'⟩ := q
  change step J s a = some s' at hstep
  change s'.breaker ≠ .halfOpen at hleft
  change s.ctx.circuitBreaker.state = .halfOpen at hhalf
  cases step_turn hstep with
  | @worker i input ctx' ws' e hturn hdoes =>
    have hbreaker := hdoes.breaker
    have hconsults := turn_consults hturn
    generalize e.asks = asks at hbreaker hconsults
    change ctx'.circuitBreaker.state ≠ .halfOpen at hleft
    rw [hbreaker] at hleft
    cases hconsults with
    | silent _ => exact absurd hhalf hleft
    | asked _ =>
      refine absurd ((allowRequest_halfOpen_iff _ _ ?_).mpr hhalf) hleft
      rw [hhalf]
      decide
    | reported hcalling _ =>
      refine ⟨i, input, rfl, hcalling, hp hhalf i ?_⟩
      unfold WorkerState.outstanding
      rw [hcalling, Bool.or_true]
  | _ => exact absurd hhalf hleft

theorem turn_reports {W : WorkerConfig R} {ctx ctx' : WorkerContext} {ws ws' : WorkerState}
    {r : R} {u : ℚ} {raises : Bool} {e : Effect}
    (hturn : Turn W ctx ctx' ws (.reply r u raises) ws' e) :
    ∃ isFailure, e.asks = [.record isFailure] := by
  cases hturn with
  | replied _ => exact ⟨_, rfl⟩

/-- A call that is out can be answered at any time. -/
theorem reply_comes {p : Observed J} {i : Fin J.concurrency} (r : R)
    (hcalling : (p.1.workers i).isCalling = true) :
    ∃ raises, (observedStep J p (.worker i (.reply r 0 raises))).isSome = true := by
  obtain ⟨s, probes⟩ := p
  have hdraw : IsDraw 0 := ⟨le_refl _, zero_le_one⟩
  obtain ⟨h, start, hws⟩ : ∃ h start, s.workers i = .calling h start := by
    change (s.workers i).isCalling = true at hcalling
    cases hws : s.workers i with
    | calling h start => exact ⟨h, start, rfl⟩
    | _ => rw [hws] at hcalling; cases hcalling
  obtain ⟨raises, next, hends, -⟩ := afterCall_ends J.toWorkerConfig s.ctx h start r 0
  have hnext : workerStep J.toWorkerConfig s.ctx (s.workers i) (.reply r 0 raises) = some next := by
    rw [hws]
    simp only [workerStep, if_pos hdraw, hends]
  refine ⟨raises, ?_⟩
  unfold observedStep Runs.withHistory
  simp [step, hnext]

/-- Any answer that comes while the breaker is half-open decides it. -/
theorem reply_decides {p q : Observed J} {i : Fin J.concurrency} {r : R} {u : ℚ} {raises : Bool}
    (h : observedStep J p (.worker i (.reply r u raises)) = some q) : q.1.breaker ≠ .halfOpen := by
  obtain ⟨hstep, -⟩ := Runs.withHistory_some.mp h
  obtain ⟨s, probes⟩ := p
  obtain ⟨s', probes'⟩ := q
  change step J s (.worker i (.reply r u raises)) = some s' at hstep
  obtain ⟨⟨ctx', ws'⟩, hnext, rfl⟩ := Option.map_eq_some_iff.mp hstep
  obtain ⟨e, hturn, hdoes⟩ := workerStep_turn hnext
  have hbreaker := hdoes.breaker
  show ctx'.circuitBreaker.state ≠ .halfOpen
  obtain ⟨isFailure, hasks⟩ := turn_reports hturn
  rw [hbreaker, hasks]
  exact record_not_halfOpen _ _ _

/-! ## The law -/

/-- If the breaker only turns half-open while no request is outstanding, then it only
leaves half-open through the answer to a probe. An earlier request that is still open
then decides in the place of the probe as soon as it is answered, whether or not the spend
check raises behind the answer. -/
theorem probe_decides (now wall : ℚ) (actions : List (Action R J.concurrency)) :
    (Runs.Along (observedStep J) (ProbesAlone J) (J.start now wall, fun _ => false) actions →
      Runs.Along (observedStep J) (ProbeDecides J) (J.start now wall, fun _ => false) actions) ∧
    ∀ (p : Observed J) (i : Fin J.concurrency) (r : R), p.1.breaker = .halfOpen →
      (p.1.workers i).isCalling = true → p.2 i = false →
      (∃ raises, (observedStep J p (.worker i (.reply r 0 raises))).isSome = true) ∧
      ∀ u raises, (observedStep J p (.worker i (.reply r u raises))).isSome = true →
        ¬ ProbeDecides J p (.worker i (.reply r u raises)) := by
  constructor
  · intro halone
    refine Runs.Along.of_invariant (I := OnlyProbesOut)
      (fun p a q hp hp' hq => step_onlyProbesOut hp hp' hq) (fun p a hp _ => hp.decides a) ?_ halone
    intro hhalf
    cases hhalf
  · intro p i r hhalf hcalling hearly
    refine ⟨reply_comes r hcalling, fun u raises hsome hdecides => ?_⟩
    obtain ⟨q, hq⟩ := Option.isSome_iff_exists.mp hsome
    obtain ⟨j, input, haction, -, hprobe⟩ := hdecides q hq hhalf (reply_decides hq)
    obtain ⟨rfl, -⟩ := Action.worker.inj haction
    rw [hearly] at hprobe
    cases hprobe

/-- Eleven prompts for two workers, with tokens for all of them. -/
def outage : JobRunner CallResult where
  provider := scripted (1 / 5) (1 / 5)
  config := { concurrency := some 2 }
  rateLimitRpm := 6000
  input := { entries := List.replicate 11 (.item ⟨"a", "hello"⟩) }

def fails : Action CallResult 2 := .nth 1 (.reply (.returned { statusCode := 500 }) 0 false)

/-- The first call is slow. Ten others fail and open the breaker, and after the cooldown
the second worker is let through as the probe. -/
def outageRun : List (Action CallResult 2) :=
  List.replicate 3 (.runner false) ++ .nth 0 .take :: List.replicate 16 (.runner false) ++
  [.nth 1 .take, fails, .nth 1 (.wake 0), fails] ++
  (List.replicate 7 [.nth 1 .take, fails]).flatten ++ List.replicate 4 (.runner false) ++
  [.nth 1 .take, fails, .tick 30 30, .nth 1 (.wake 0)]

def outageProbed : Observed outage :=
  (Runs.exec (observedStep outage) (outage.start 0 0, fun _ => false) outageRun).get
    (by decide +kernel)

/-- In `outage` the answer to the slow call closes the breaker, with the probe still out. -/
theorem probe_overruled : ∃ (J : JobRunner CallResult)
    (actions : List (Action CallResult J.concurrency)) (s : State J.concurrency),
    Runs.exec (step J) (J.start 0 0) actions = some s ∧
      ¬ Runs.Along (observedStep J) (ProbeDecides J) (J.start 0 0, fun _ => false) actions := by
  let slow : Action CallResult 2 := .nth 0 (.reply (.returned { statusCode := 200 }) 0 false)
  let q : Observed outage := (observedStep outage outageProbed slow).get (by decide +kernel)
  have hrun : Runs.exec (observedStep outage) (outage.start 0 0, fun _ => false) outageRun =
      some outageProbed := (Option.some_get _).symm
  have hq : observedStep outage outageProbed slow = some q := (Option.some_get _).symm
  have hobserved := Runs.exec_snoc.mpr ⟨outageProbed, hrun, hq⟩
  refine ⟨outage, outageRun ++ [slow], q.1, (exec_observed_iff _).mp ⟨q.2, hobserved⟩, fun h => ?_⟩
  obtain ⟨i, input, haction, -, hprobe⟩ := h.apply hrun q hq (by decide +kernel) (by decide +kernel)
  obtain ⟨rfl, -⟩ := Action.worker.inj haction
  exact absurd hprobe (by decide +kernel)

end BatchEngine.Core
