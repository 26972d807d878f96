import BatchEngine.Core.ProbeOwner
import BatchEngine.Core.Stop

/-!
# What is still sent while the provider is down

An open breaker refuses every request until its cooldown has passed, and then lets one
probe through. Requests that had been admitted before it opened still wait for their
tokens and go out. So an outage costs these, the probe, and nothing else.
-/

set_option autoImplicit false

namespace BatchEngine.Core

variable {R : Type*} {J : JobRunner R}

/-! ## The breaker during an outage -/

/-- The breaker that `b` has become while no answer has decided it: open with no probe
admitted, or half-open with one. -/
inductive CircuitBreaker.Undecided (b : CircuitBreaker) : CircuitBreaker → ℕ → Prop
  | waiting (outcomes : List Bool) : Undecided b { b with state := .opened, outcomes } 0
  | probing (outcomes : List Bool) :
      Undecided b { b with state := .halfOpen, probeInFlight := true, outcomes } 1

namespace CircuitBreaker

variable {b b' : CircuitBreaker} {probes : ℕ} {now : ℚ}

theorem undecided_self (hopen : b.state = .opened) : Undecided b b 0 := by
  have hself : { b with state := .opened, outcomes := b.outcomes } = b := by rw [← hopen]
  have hwaiting := Undecided.waiting (b := b) b.outcomes
  rwa [hself] at hwaiting

theorem Undecided.probes_le (h : Undecided b b' probes) : probes ≤ 1 := by
  cases h with
  | waiting _ => exact Nat.zero_le 1
  | probing _ => exact le_rfl

/-- Until the probe goes stale, a question admits it or nobody. -/
theorem Undecided.allowRequest (h : Undecided b b' probes)
    (hfresh : now - b.openedAt ≤ b.cooldownS + b.probeTimeoutS) :
    (∃ probes', Undecided b (b'.allowRequest now).2 probes' ∧
      probes' = probes + if (b'.allowRequest now).1 then 1 else 0) ∧
    ((b'.allowRequest now).1 = true → b.cooldownS ≤ now - b.openedAt) := by
  cases h with
  | waiting outcomes =>
    rw [allowRequest_opened rfl]
    by_cases hcooled : b.cooldownS ≤ now - b.openedAt
    · rw [if_pos hcooled]
      exact ⟨⟨1, .probing outcomes, rfl⟩, fun _ => hcooled⟩
    · rw [if_neg hcooled]
      exact ⟨⟨0, .waiting outcomes, rfl⟩, fun h => by cases h⟩
  | probing outcomes =>
    have hrefused : { b with state := .halfOpen, probeInFlight := true, outcomes }.allowRequest now =
        (false, { b with state := .halfOpen, probeInFlight := true, outcomes }) := by
      rw [allowRequest_halfOpen rfl]
      apply if_pos
      exact ⟨rfl, decide_eq_false (not_lt.mpr hfresh)⟩
    rw [hrefused]
    exact ⟨⟨1, .probing outcomes, rfl⟩, fun h => by cases h⟩

/-- An answer that comes while the breaker is open leaves it open. -/
theorem Undecided.record (h : Undecided b b' probes) (hwaiting : b'.state ≠ .halfOpen)
    (isFailure : Bool) : Undecided b (b'.record now isFailure) probes := by
  cases h with
  | waiting outcomes => exact .waiting _
  | probing _ => exact absurd rfl hwaiting

end CircuitBreaker

/-! ## One turn -/

/-- The call that a turn adds to those that wait for a token or go out: one that the
breaker was asked for, and admitted. -/
inductive Enters (ctx : WorkerContext) (e : Effect) : Multiset Call → Prop
  | nothing (hrefused : e.asks = [.allowRequest] →
      (ctx.circuitBreaker.allowRequest ctx.now).1 = false) : Enters ctx e 0
  | admitted (call : Call) (hask : e.asks = [.allowRequest])
      (hallowed : (ctx.circuitBreaker.allowRequest ctx.now).1 = true) : Enters ctx e {call}

theorem loopTurn_enters {ctx : WorkerContext} {h : InHand} {ws' : WorkerState} {e : Effect}
    (hturn : LoopTurn ctx h ws' e) :
    ∃ added, Enters ctx e added ∧ (e.calls : Multiset Call) + ws'.waiting = added := by
  cases hturn with
  | stopped _ _ => exact ⟨0, .nothing (fun h => by cases h), rfl⟩
  | refused _ hask => exact ⟨0, .nothing fun _ => hask, rfl⟩
  | admitted _ hask => exact ⟨_, .admitted _ rfl hask, zero_add _⟩
  | called _ hask => exact ⟨_, .admitted _ rfl hask, add_zero _⟩

theorem retryTurn_waiting {h : InHand} {ws' : WorkerState} {e : Effect}
    (hturn : RetryTurn h ws' e) : (e.calls : Multiset Call) + ws'.waiting = 0 := by
  cases hturn <;> rfl

theorem callTurn_waiting {W : WorkerConfig R} {ctx' : WorkerContext} {h : InHand}
    {outcome : Outcome} {raises : Bool} {ws' : WorkerState} {e : Effect}
    (hturn : CallTurn W ctx' h outcome raises ws' e) :
    (e.calls : Multiset Call) + ws'.waiting = 0 := by
  cases hturn with
  | failed _ _ hretry => exact retryTurn_waiting hretry
  | _ => rfl

theorem turn_enters {W : WorkerConfig R} {ctx ctx' : WorkerContext} {ws ws' : WorkerState}
    {input : WorkerInput R} {e : Effect} (hturn : Turn W ctx ctx' ws input ws' e) :
    ∃ added, Enters ctx e added ∧ (e.calls : Multiset Call) + ws'.waiting = ws.waiting + added := by
  have hsilent : e.asks = [] → Enters ctx e 0 := fun h => .nothing fun hask => by
    rw [h] at hask
    cases hask
  cases hturn with
  | shutdown => exact ⟨0, hsilent rfl, rfl⟩
  | passed => exact ⟨0, hsilent rfl, rfl⟩
  | taken hloop =>
    obtain ⟨added, henters, hcalls⟩ := loopTurn_enters hloop
    refine ⟨added, ?_, hcalls.trans (zero_add added).symm⟩
    cases henters with
    | nothing hrefused => exact .nothing hrefused
    | admitted call hask hallowed => exact .admitted call hask hallowed
  | asked hloop =>
    obtain ⟨added, henters, hcalls⟩ := loopTurn_enters hloop
    exact ⟨added, henters, hcalls.trans (zero_add added).symm⟩
  | looped hloop =>
    obtain ⟨added, henters, hcalls⟩ := loopTurn_enters hloop
    exact ⟨added, henters, hcalls.trans (zero_add added).symm⟩
  | waited => exact ⟨0, hsilent rfl, rfl⟩
  | granted => exact ⟨0, hsilent rfl, rfl⟩
  | replied hcall =>
    have hnone := callTurn_waiting hcall
    exact ⟨0, .nothing (fun h => by cases h), hnone⟩
  | jittered => exact ⟨0, hsilent rfl, rfl⟩
  | resumed hretry =>
    exact ⟨0, hsilent (retryTurn_done hretry).2, retryTurn_waiting hretry⟩

theorem turn_answers {W : WorkerConfig R} {ctx ctx' : WorkerContext} {ws ws' : WorkerState}
    {input : WorkerInput R} {e : Effect} (hturn : Turn W ctx ctx' ws input ws' e)
    (hcalling : ws.isCalling = true) : ∃ r u raises, input = .reply r u raises := by
  cases hturn with
  | replied _ => exact ⟨_, _, _, rfl⟩
  | _ => cases hcalling

theorem card_waiting_le {n : ℕ} (s : State n) : Multiset.card (waiting s) ≤ n := by
  have hone : ∀ ws : WorkerState, Multiset.card ws.waiting ≤ 1 := by
    intro ws
    cases ws with
    | acquiring h wake => exact (Multiset.card_singleton _).le
    | _ => exact Nat.zero_le 1
  calc Multiset.card (waiting s)
      = ∑ i, Multiset.card (s.workers i).waiting := map_sum Multiset.cardHom _ _
    _ ≤ ∑ _i : Fin n, 1 := Finset.sum_le_sum fun i _ => hone (s.workers i)
    _ = n := by simp

/-! ## The outage -/

/-- What has become of the outage that began in `s`: the calls made since and those still
waiting are those that were waiting then, and the probe. -/
structure Outage {n : ℕ} (s s' : State n) (probe : Multiset Call) (late : List Call) : Prop where
  breaker : s.ctx.circuitBreaker.Undecided s'.ctx.circuitBreaker (Multiset.card probe)
  calls : s'.ctx.calls = s.ctx.calls ++ late
  sends : (late : Multiset Call) + waiting s' = waiting s + probe
  cooled : probe ≠ 0 → s.ctx.circuitBreaker.cooldownS ≤ s'.ctx.now - s.ctx.circuitBreaker.openedAt

/-- No answer comes while the probe is out. -/
def NoAnswer {n : ℕ} (s : State n) : Action R n → Prop
  | .worker _ (.reply _ _ _) => s.breaker ≠ .halfOpen
  | _ => True

/-- The probe that opened the half-open phase is not stale yet. -/
def State.FreshSince {n : ℕ} (s' s : State n) : Prop :=
  s'.ctx.now - s.ctx.circuitBreaker.openedAt ≤
    s.ctx.circuitBreaker.cooldownS + s.ctx.circuitBreaker.probeTimeoutS

theorem Outage.refl {n : ℕ} {s : State n} (hopen : s.breaker = .opened) : Outage s s 0 [] where
  breaker := CircuitBreaker.undecided_self hopen
  calls := (List.append_nil _).symm
  sends := by rw [Multiset.coe_nil, zero_add, add_zero]
  cooled := fun h => absurd rfl h

theorem Outage.still {n : ℕ} {s t u : State n} {probe : Multiset Call} {late : List Call}
    (h : Outage s t probe late) (hbreaker : u.ctx.circuitBreaker = t.ctx.circuitBreaker)
    (hcalls : u.ctx.calls = t.ctx.calls) (hworkers : u.workers = t.workers)
    (hnow : t.ctx.now ≤ u.ctx.now) : Outage s u probe late where
  breaker := hbreaker ▸ h.breaker
  calls := hcalls.trans h.calls
  sends := by
    unfold waiting
    rw [hworkers]
    exact h.sends
  cooled := fun hprobe => (h.cooled hprobe).trans (sub_le_sub_right hnow _)

theorem turn_breaker {W : WorkerConfig R} {ctx ctx' : WorkerContext} {ws ws' : WorkerState}
    {input : WorkerInput R} {e : Effect} {b : CircuitBreaker} {probes : ℕ}
    (hturn : Turn W ctx ctx' ws input ws' e) (hdoes : Does ctx ctx' e)
    (hb : b.Undecided ctx.circuitBreaker probes)
    (hanswer : ws.isCalling = true → ctx.circuitBreaker.state ≠ .halfOpen)
    (hfresh : ctx.now - b.openedAt ≤ b.cooldownS + b.probeTimeoutS) {added : Multiset Call}
    (henters : Enters ctx e added) :
    b.Undecided ctx'.circuitBreaker (probes + Multiset.card added) ∧
      (added ≠ 0 → b.cooldownS ≤ ctx.now - b.openedAt) := by
  have hconsults := turn_consults hturn
  obtain ⟨⟨probes', hnext, hprobes⟩, hcooled⟩ := hb.allowRequest hfresh
  rw [hdoes.breaker]
  cases henters with
  | nothing hrefused =>
    refine ⟨?_, fun h => absurd rfl h⟩
    rw [Multiset.card_zero, add_zero]
    generalize e.asks = asks at hconsults hrefused
    cases hconsults with
    | silent _ => exact hb
    | asked _ =>
      rw [hrefused rfl] at hprobes
      rw [hprobes] at hnext
      exact hnext
    | reported hcalling _ => exact hb.record (hanswer hcalling) _
  | admitted call hask hallowed =>
    rw [hallowed] at hprobes
    rw [hprobes] at hnext
    rw [hask, Multiset.card_singleton]
    exact ⟨hnext, fun _ => hcooled hallowed⟩

theorem step_outage {s t u : State J.concurrency} {a : Action R J.concurrency}
    {probe : Multiset Call} {late : List Call} (h : Outage s t probe late)
    (hfresh : t.FreshSince s) (hanswer : NoAnswer t a) (hstep : JobTurn J t a u) :
    ∃ probe' late', Outage s u probe' late' := by
  cases hstep with
  | @worker i input ctx' ws' e hturn hdoes =>
    obtain ⟨added, henters, hmoves⟩ := turn_enters hturn
    have hcalling : (t.workers i).isCalling = true → t.ctx.circuitBreaker.state ≠ .halfOpen := by
      intro hcalling
      obtain ⟨r, v, raises, rfl⟩ := turn_answers hturn hcalling
      exact hanswer
    obtain ⟨hbreaker, hcooled⟩ := turn_breaker hturn hdoes h.breaker hcalling hfresh henters
    refine ⟨probe + added, late ++ e.calls, ?_, ?_, ?_, ?_⟩
    · rw [Multiset.card_add]
      exact hbreaker
    · show ctx'.calls = _
      rw [hdoes.calls, h.calls, List.append_assoc]
    · have hsum := Runs.sum_update_add t.workers WorkerState.waiting i ws'
      have hsends := h.sends
      change _ + ∑ j, (t.workers j).waiting = _ at hsends
      show ((late ++ e.calls : List Call) : Multiset Call) +
        ∑ j, (Function.update t.workers i ws' j).waiting = _
      apply add_right_cancel (b := (t.workers i).waiting)
      calc ((late ++ e.calls : List Call) : Multiset Call) +
            ∑ j, (Function.update t.workers i ws' j).waiting + (t.workers i).waiting
          = (late : Multiset Call) + ∑ j, (t.workers j).waiting +
              ((e.calls : Multiset Call) + ws'.waiting) := by
            rw [add_assoc, hsum, ← Multiset.coe_add]
            abel
        _ = waiting s + (probe + added) + (t.workers i).waiting := by
            rw [hsends, hmoves]
            abel
    · intro hprobe
      show _ ≤ ctx'.now - _
      rw [hdoes.now]
      by_cases hadded : added = 0
      · rw [hadded, add_zero] at hprobe
        exact h.cooled hprobe
      · exact hcooled hadded
  | tick hdt => exact ⟨probe, late, h.still rfl rfl rfl (le_add_of_nonneg_right hdt)⟩
  | _ => exact ⟨probe, late, h.still rfl rfl rfl le_rfl⟩

theorem step_now {s s' : State J.concurrency} {a : Action R J.concurrency}
    (h : JobTurn J s a s') : s.ctx.now ≤ s'.ctx.now := by
  cases h with
  | tick hdt => exact le_add_of_nonneg_right hdt
  | worker _ hdoes => exact hdoes.now.ge
  | _ => exact le_rfl

/-- From the moment the breaker opens, until an answer comes after the cooldown or the
probe goes stale, the job makes only the calls that were already waiting for a token, and
one more. Before the cooldown it makes not even that one. -/
theorem outage_quiet {s s' : State J.concurrency} {actions : List (Action R J.concurrency)}
    (hopen : s.breaker = .opened) (hrun : Runs.exec (step J) s actions = some s')
    (hanswers : Runs.Along (step J) NoAnswer s actions) (hfresh : s'.FreshSince s) :
    ∃ (probe : Multiset Call) (late : List Call), s'.ctx.calls = s.ctx.calls ++ late ∧
      (late : Multiset Call) + waiting s' = waiting s + probe ∧ Multiset.card probe ≤ 1 ∧
      late.length ≤ J.concurrency + 1 ∧
      (s'.ctx.now - s.ctx.circuitBreaker.openedAt < s.ctx.circuitBreaker.cooldownS →
        probe = 0 ∧ s'.breaker = .opened) := by
  have hrun := Runs.Along.invariant
    (I := fun t => t.FreshSince s → ∃ probe late, Outage s t probe late)
    (Q := NoAnswer) ?_ (fun _ => ⟨0, [], .refl hopen⟩) hanswers hrun
  · obtain ⟨probe, late, hout⟩ := hrun hfresh
    have hprobe := hout.breaker.probes_le
    refine ⟨probe, late, hout.calls, hout.sends, hprobe, ?_, fun hcooling => ?_⟩
    · have hcards := congrArg Multiset.card hout.sends
      rw [Multiset.card_add, Multiset.card_add, Multiset.coe_card] at hcards
      have hwaiting := card_waiting_le s
      omega
    · have hnone : probe = 0 := by
        by_contra hsome
        exact absurd (hout.cooled hsome) (not_le.mpr hcooling)
      refine ⟨hnone, ?_⟩
      have hbreaker := hout.breaker
      rw [hnone, Multiset.card_zero] at hbreaker
      unfold State.breaker
      generalize s'.ctx.circuitBreaker = b' at hbreaker
      cases hbreaker with
      | waiting _ => rfl
  · intro t a u ht hanswer hstep hfresh
    have hturn := step_turn hstep
    have hbefore : t.FreshSince s := (sub_le_sub_right (step_now hturn) _).trans hfresh
    obtain ⟨probe, late, hout⟩ := ht hbefore
    exact step_outage hout hbefore hanswer hturn

/-- The job of `outage` when ten failures have opened the breaker. -/
def outageOpen : State 2 :=
  (Runs.exec (step outage) (outage.start 0 0) (outageRun.take (outageRun.length - 2))).get
    (by decide +kernel)

/-- After the cooldown a worker asks again. -/
def outageProbing : State 2 :=
  (Runs.exec (step outage) outageOpen [.tick 30 30, .nth 1 (.wake 0)]).get (by decide +kernel)

theorem outage_quiet_outage : outageProbing.ctx.calls.length = outageOpen.ctx.calls.length + 1 ∧
    ∃ late : List Call, outageProbing.ctx.calls = outageOpen.ctx.calls ++ late ∧
      late.length ≤ 3 := by
  have hrun : Runs.exec (step outage) outageOpen [.tick 30 30, .nth 1 (.wake 0)] =
      some outageProbing := (Option.some_get _).symm
  have hopen : outageOpen.breaker = .opened := by decide +kernel
  have hfresh : outageProbing.FreshSince outageOpen := by
    unfold State.FreshSince
    decide +kernel
  obtain ⟨-, late, hcalls, -, -, hlength, -⟩ := outage_quiet (J := outage) hopen hrun
    ⟨trivial, fun _ _ => ⟨trivial, fun _ _ => trivial⟩⟩ hfresh
  exact ⟨by decide +kernel, late, hcalls, hlength⟩

end BatchEngine.Core
