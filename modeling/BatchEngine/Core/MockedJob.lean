import BatchEngine.Core.FailureClasses
import BatchEngine.Core.HardPause
import BatchEngine.Providers.Mock

/-!
# A job against the mock provider

The provider of a job is put beside it. A call that a turn of a worker starts is answered by
the mock in that turn, and the worker is handed this answer when it is woken, in any order
with the other workers. With `simulate_delay` the call sleeps first, and the mock answers it
when the worker is woken. So the quota of the mock shows in what the job makes of its answers.
-/

set_option autoImplicit false

namespace BatchEngine.Core

open BatchEngine.Providers
open MockProvider (Remembers admissions serve)

variable {R : Type*}

/-- What the calls of a job to its mock have in common. `strRepr` is `repr` of a string. -/
structure MockSetup where
  cfg : MockProviderConfig
  strRepr : String → String
  maxTokens : ℤ

/-- A job, the mock with the log of its gate, and the answers to the calls under way. -/
structure MockedJob (n : ℕ) where
  job : State n
  served : MockProvider × List (ℚ × Gate)
  answers : Fin n → Option CallResult := fun _ => none
  /-- The calls that are in the sleep of `simulate_delay`. -/
  sleeping : Fin n → Option MockCall := fun _ => none

/-- If the turn of worker `i` has started a call, it sleeps or is answered. -/
def MockedJob.called {n : ℕ} (M : MockSetup) (b : MockedJob n) (i : Fin n) (draws : Draws) :
    MockedJob n :=
  match b.job.workers i with
  | .calling h _ =>
    let call : MockCall := ⟨b.job.ctx.wall, h.item.prompt, M.maxTokens, draws⟩
    if M.cfg.simulateDelay then
      { b with
        served := (b.served.1.arrive, b.served.2)
        sleeping := Function.update b.sleeping i (some call) }
    else
      { b with
        served := serve M.strRepr b.served call
        answers := Function.update b.answers i (some (b.served.1.complete M.strRepr call).1) }
  | _ => b

/-- The sleep of a call is over. -/
def MockedJob.wokenBy {n : ℕ} (M : MockSetup) (b : MockedJob n) (i : Fin n) (call : MockCall) :
    MockedJob n :=
  { b with
    served := ((b.served.1.resume M.strRepr call).2,
      b.served.2 ++ [(call.now, (b.served.1.pass call.now).1)])
    sleeping := Function.update b.sleeping i none }

section Job

variable (M : MockSetup) (J : JobRunner R)

def JobRunner.startMocked (now wall : ℚ) : MockedJob J.concurrency :=
  { job := J.start now wall, served := ({ cfg := M.cfg }, []) }

def mockedStep (b : MockedJob J.concurrency) (a : Action R J.concurrency × Draws) :
    Option (MockedJob J.concurrency) :=
  (step J b.job a.1).bind fun job =>
    match a.1 with
    | .worker i (.reply r _ _) =>
      match b.sleeping i with
      | some call =>
        if (b.served.1.resume M.strRepr call).1 = J.provider.complete r then
          some (MockedJob.wokenBy M { b with job } i call)
        else none
      | none =>
        if b.answers i = some (J.provider.complete r) then
          some { b with job, answers := Function.update b.answers i none }
        else none
    | .worker i _ => some (MockedJob.called M { b with job } i a.2)
    | _ => some { b with job }

/-- The wall clock does not go back. -/
def ClockForward (b : MockedJob J.concurrency) (a : Action R J.concurrency × Draws) : Prop :=
  ∀ dt wall, a.1 = .tick dt wall → b.job.ctx.wall ≤ wall

/-- The draws come from `random()`. -/
def DrawsUnit (draws : Draws) : Prop :=
  0 ≤ draws.unexpected ∧ 0 ≤ draws.timeout ∧ 0 ≤ draws.throttle ∧ 0 ≤ draws.server ∧
    0 ≤ draws.invalid ∧ 0 ≤ draws.malformed

instance (draws : Draws) : Decidable (DrawsUnit draws) :=
  inferInstanceAs (Decidable (_ ∧ _))

end Job

def WorkerInput.isReply : WorkerInput R → Bool
  | .reply _ _ _ => true
  | _ => false

/-! ## What a step of both can do without a delay -/

section Steps

variable {M : MockSetup} {J : JobRunner R}

inductive MockedTurn (M : MockSetup) (J : JobRunner R) (b : MockedJob J.concurrency) :
    Action R J.concurrency × Draws → MockedJob J.concurrency → Prop
  | still {a : Action R J.concurrency} {draws : Draws} {job : State J.concurrency}
      (hstep : step J b.job a = some job) (hnot : ∀ i input, a ≠ .worker i input) :
      MockedTurn M J b (a, draws) { b with job }
  | moved {i : Fin J.concurrency} {input : WorkerInput R} {draws : Draws} {ctx' : WorkerContext}
      {ws' : WorkerState}
      (hstep : workerStep J.toWorkerConfig b.job.ctx (b.job.workers i) input = some (ctx', ws'))
      (hinput : input.isReply = false) (hidle : ws'.isCalling = false) :
      MockedTurn M J b (.worker i input, draws)
        { b with job := { b.job with ctx := ctx', workers := Function.update b.job.workers i ws' } }
  | called {i : Fin J.concurrency} {input : WorkerInput R} {draws : Draws} {ctx' : WorkerContext}
      {h : InHand} {start : ℚ}
      (hstep : workerStep J.toWorkerConfig b.job.ctx (b.job.workers i) input =
        some (ctx', .calling h start)) (hinput : input.isReply = false)
      (call : MockCall) (hcall : call = ⟨b.job.ctx.wall, h.item.prompt, M.maxTokens, draws⟩) :
      MockedTurn M J b (.worker i input, draws)
        { b with
          job := { b.job with
            ctx := ctx'
            workers := Function.update b.job.workers i (.calling h start) }
          served := serve M.strRepr b.served call
          answers := Function.update b.answers i
            (some (b.served.1.complete M.strRepr call).1) }
  | replied {i : Fin J.concurrency} {r : R} {u : ℚ} {raises : Bool} {draws : Draws}
      {ctx' : WorkerContext} {ws' : WorkerState}
      (hstep : workerStep J.toWorkerConfig b.job.ctx (b.job.workers i) (.reply r u raises) =
        some (ctx', ws'))
      (hanswer : b.answers i = some (J.provider.complete r)) :
      MockedTurn M J b (.worker i (.reply r u raises), draws)
        { b with
          job := { b.job with ctx := ctx', workers := Function.update b.job.workers i ws' }
          answers := Function.update b.answers i none }

theorem mockedStep_turn {b b' : MockedJob J.concurrency} {a : Action R J.concurrency × Draws}
    (hdelay : M.cfg.simulateDelay = false) (hawake : ∀ i, b.sleeping i = none)
    (h : mockedStep M J b a = some b') : MockedTurn M J b a b' := by
  obtain ⟨a, draws⟩ := a
  obtain ⟨job, hstep, hb⟩ := Option.bind_eq_some_iff.mp h
  by_cases hworker : ∃ i input, a = .worker i input
  · obtain ⟨i, input, rfl⟩ := hworker
    obtain ⟨⟨ctx', ws'⟩, hturn, rfl⟩ := Option.map_eq_some_iff.mp hstep
    cases hinput : input.isReply with
    | true =>
      cases input with
      | reply r u raises =>
        dsimp only at hb
        rw [hawake i] at hb
        dsimp only at hb
        split at hb
        · obtain rfl := Option.some.inj hb
          exact .replied hturn ‹_›
        · cases hb
      | _ => cases hinput
    | false =>
      have hnext : some (MockedJob.called M { b with
          job := { b.job with ctx := ctx', workers := Function.update b.job.workers i ws' } }
          i draws) = some b' := by
        cases input with
        | reply _ _ _ => cases hinput
        | _ => exact hb
      obtain rfl := Option.some.inj hnext
      unfold MockedJob.called
      simp only [Function.update_self]
      have hwall : ctx'.wall = b.job.ctx.wall := by
        obtain ⟨e, -, hdoes⟩ := workerStep_turn hturn
        exact hdoes.wall
      cases ws' with
      | calling h start =>
        rw [hdelay]
        exact .called hturn hinput _ (by rw [hwall])
      | _ => exact .moved hturn hinput rfl
  · have hnot : ∀ i input, a ≠ .worker i input := fun i input ha => hworker ⟨i, input, ha⟩
    have hnext : some { b with job } = some b' := by
      cases a with
      | worker i input => exact absurd rfl (hnot i input)
      | _ => exact hb
    obtain rfl := Option.some.inj hnext
    exact .still hstep hnot

end Steps

/-! ## What an answer of the mock is -/

def classOf (answer : CallResult) : FailureClass := (classify (outcomeOf answer)).1

theorem classOf_throttle {resp : ProviderResponse} (h : resp.statusCode = 429) :
    classOf (.returned resp) = .throttled := by
  have hclass : classify (.response resp) = (.throttled, 8) := by
    simp only [classify, h]
    rfl
  exact congrArg Prod.fst hclass

/-- No chaos: the only answers are completions and the refusals of the quota. -/
structure CalmMock (cfg : MockProviderConfig) : Prop where
  unexpected : cfg.pUnexpectedException ≤ 0
  timeout : cfg.pTimeout ≤ 0
  throttle : cfg.p429 ≤ 0
  server : cfg.p500 ≤ 0
  invalid : cfg.p400 ≤ 0
  malformed : cfg.malformedResponseRate ≤ 0
  failAfterN : cfg.failAfterN = none

section Answers

variable {cfg : MockProviderConfig} {ceiling : ℤ} {m : MockProvider} {strRepr : String → String}

theorem gate_cfg (m : MockProvider) (now : ℚ) : (m.gate now).2.cfg = m.cfg := by
  unfold MockProvider.gate MockProvider.pass MockProvider.arrive
  dsimp only
  split
  · rfl
  · split
    · rfl
    · split
      · split <;> rfl
      · rfl

/-- A completion has been let past by the gate. -/
theorem success_admitted (hfatal : m.cfg.fatalStatus ≠ 200) {call : MockCall}
    (h : classOf (m.complete strRepr call).1 = .success) : (m.gate call.now).1 = .admitted := by
  have hcfg := gate_cfg m call.now
  unfold MockProvider.complete MockProvider.reply at h
  split at h <;> rename_i next hgate
  · obtain ⟨resp, hresp, hstatus, -⟩ := (classify_success_iff _).mp h
    obtain rfl := Outcome.response.inj hresp
    rw [hgate] at hcfg
    exact absurd (hcfg ▸ hstatus) hfatal
  · rw [classOf_throttle rfl] at h
    cases h
  · cases h
  · rw [hgate]

/-- Without chaos a call that is let past is completed. -/
theorem answer_calm (hcalm : CalmMock m.cfg) {call : MockCall} (hdraws : DrawsUnit call.draws)
    (htokens : -1 ≤ call.maxTokens) :
    classOf (m.answer strRepr call).1 = .success := by
  obtain ⟨hunexpected, htimeout, hthrottle, hserver, hinvalid, hmalformed⟩ := hdraws
  unfold MockProvider.answer
  rw [if_neg (not_lt.mpr (hcalm.unexpected.trans hunexpected)),
    if_neg (not_lt.mpr (hcalm.timeout.trans htimeout)),
    if_neg (not_lt.mpr (hcalm.throttle.trans hthrottle)),
    if_neg (not_lt.mpr (hcalm.server.trans hserver)),
    if_neg (not_lt.mpr (hcalm.invalid.trans hinvalid)),
    if_neg (by omega : ¬ call.maxTokens < call.maxTokens / 2)]
  refine (classify_success_iff _).mpr ⟨_, rfl, rfl, ?_⟩
  exact decide_eq_false (not_lt.mpr (hcalm.malformed.trans hmalformed))

/-- Without chaos every other call is a 429. -/
theorem complete_calm (hcalm : CalmMock m.cfg) (hceiling : m.cfg.hardRpmCeiling = some ceiling)
    (hpos : 0 < ceiling) {call : MockCall} (hdraws : DrawsUnit call.draws)
    (htokens : -1 ≤ call.maxTokens) :
    classOf (m.complete strRepr call).1 =
      if (m.gate call.now).1 = .admitted then .success else .throttled := by
  have hcfg := gate_cfg m call.now
  have hturn := MockProvider.gate_turn rfl hceiling call.now
  unfold MockProvider.complete MockProvider.reply
  split <;> rename_i next hgate <;> rw [hgate] at hturn hcfg ⊢
  · cases hturn with
    | fatal hfatal =>
      obtain ⟨n, hn, -⟩ := hfatal
      rw [hcalm.failAfterN] at hn
      cases hn
    | refused _ _ _ hrefused =>
      split at hrefused <;> cases hrefused
  · exact classOf_throttle rfl
  · cases hturn with
    | refused _ _ hfull hrefused =>
      split at hrefused
      · rename_i hempty
        rw [hempty] at hfull
        exact absurd hfull (not_le.mpr hpos)
      · cases hrefused
  · have hcalm' : CalmMock next.cfg := by
      rw [show next.cfg = m.cfg from hcfg]
      exact hcalm
    exact answer_calm hcalm' hdraws htokens

end Answers

/-! ## What a turn counts -/

/-- How many answers of this class the turn brings. -/
def WorkerInput.brings (W : WorkerConfig R) (c : FailureClass) : WorkerInput R → ℕ
  | .reply r _ _ => if classOf (W.provider.complete r) = c then 1 else 0
  | _ => 0

section Turns

variable {W : WorkerConfig R} {ctx ctx' : WorkerContext} {ws ws' : WorkerState}
  {input : WorkerInput R} {e : Effect}

/-- A worker is woken by an answer exactly if it is waiting for one. -/
theorem turn_isReply (hturn : Turn W ctx ctx' ws input ws' e) : input.isReply = ws.isCalling := by
  cases hturn <;> rfl

theorem loopTurn_calls {h : InHand} (hloop : LoopTurn ctx h ws' e) :
    e.calls.length = if ws'.isCalling then 1 else 0 := by
  cases hloop <;> rfl

theorem retryTurn_starts {h : InHand} (hretry : RetryTurn h ws' e) :
    e.calls.length = if ws'.isCalling then 1 else 0 := by
  cases hretry <;> rfl

/-- A turn that starts a call ends with the worker waiting for its answer. -/
theorem turn_starts (hturn : Turn W ctx ctx' ws input ws' e) :
    e.calls.length = if ws'.isCalling then 1 else 0 := by
  cases hturn with
  | taken hloop =>
    have hcalls := loopTurn_calls hloop
    exact hcalls
  | asked hloop => exact loopTurn_calls hloop
  | looped hloop => exact loopTurn_calls hloop
  | replied hcall =>
    cases hcall with
    | failed _ _ hretry =>
      have hcalls := retryTurn_starts hretry
      exact hcalls
    | _ => rfl
  | resumed hretry => exact retryTurn_starts hretry
  | _ => rfl

theorem turn_idles (hturn : Turn W ctx ctx' ws input ws' e) (hreply : input.isReply = true) :
    ws'.isCalling = false := by
  cases hturn with
  | replied hcall =>
    cases hcall with
    | failed _ _ hretry => cases hretry <;> rfl
    | _ => rfl
  | _ => cases hreply

theorem settles_succeeded (rows : List Row) (record : JobRecord) :
    (rows.foldl JobRecord.settle record).counts.succeeded =
      record.counts.succeeded + rows.countP Row.isResult := by
  induction rows generalizing record with
  | nil => rfl
  | cons row rows ih =>
    rw [List.foldl_cons, ih, List.countP_cons]
    cases row with
    | result r =>
      simp only [JobRecord.settle, Row.isResult, ↓reduceIte]
      omega
    | error e => rfl

theorem loopTurn_results {h : InHand} (hloop : LoopTurn ctx h ws' e) :
    e.rows.countP Row.isResult = 0 := by
  cases hloop <;> rfl

theorem retryTurn_results {h : InHand} (hretry : RetryTurn h ws' e) :
    e.rows.countP Row.isResult = 0 := by
  cases hretry <;> rfl

/-- A turn submits a result exactly if it brings a success. -/
theorem turn_results (hturn : Turn W ctx ctx' ws input ws' e) :
    e.rows.countP Row.isResult = input.brings W .success := by
  cases hturn with
  | taken hloop =>
    have hresults := loopTurn_results hloop
    exact hresults
  | asked hloop => exact loopTurn_results hloop
  | looped hloop => exact loopTurn_results hloop
  | @replied h start u r raises ws' e hcall =>
    have hbrings : ∀ {c : Prop} [Decidable c], c → (1 : ℕ) = if c then 1 else 0 := fun hc =>
      (if_pos hc).symm
    cases hcall with
    | succeeded _ hclass => exact hbrings hclass
    | raised _ hclass _ => exact hbrings hclass
    | fatal hclass _ =>
      refine (if_neg fun hsuccess => ?_).symm
      rw [show (classify (outcomeOf (W.provider.complete r))).1 = .success from hsuccess] at hclass
      cases hclass
    | paused hclass =>
      refine (if_neg fun hsuccess => ?_).symm
      cases hclass.symm.trans hsuccess
    | jittered hclass =>
      refine (if_neg fun hsuccess => ?_).symm
      cases hclass.symm.trans hsuccess
    | failed hsuccess _ hretry => exact (retryTurn_results hretry).trans (if_neg hsuccess).symm
  | resumed hretry => exact retryTurn_results hretry
  | _ => rfl

end Turns

/-! ## The throttle events -/

/-- What the worker does in a turn adds this many throttle events. -/
def Throttles (ctx ctx' : WorkerContext) (k : ℕ) : Prop :=
  ctx'.controller.throttleEvents429 = ctx.controller.throttleEvents429 + k

section Throttles

variable {W : WorkerConfig R} {ctx : WorkerContext}

theorem throttles_acquirePass (ctx : WorkerContext) (h : InHand) :
    Throttles ctx (acquirePass ctx h).1 0 := by
  have hbranch := acquirePass_branch ctx h
  generalize acquirePass ctx h = next at hbranch ⊢
  cases hbranch <;> rfl

theorem throttles_loopTop (ctx : WorkerContext) (h : InHand) :
    Throttles ctx (loopTop ctx h).1 0 := by
  have hbranch := loopTop_branch ctx h
  generalize loopTop ctx h = next at hbranch ⊢
  cases hbranch with
  | allowed _ _ _ =>
    exact throttles_acquirePass (ctx.withBreaker (ctx.circuitBreaker.allowRequest ctx.now).2) _
  | _ => rfl

theorem throttles_takeItem (ctx : WorkerContext) (x : Queued) :
    Throttles ctx (takeItem ctx x).1 0 := by
  match x with
  | .shutdown => rfl
  | .ticket ⟨_, .error _⟩ => rfl
  | .ticket ⟨seq, .item p⟩ => exact throttles_loopTop ctx ⟨seq, p, 0⟩

theorem throttles_retryOrFail (W : WorkerConfig R) (ctx : WorkerContext) (h : InHand)
    (f : Failure) (u : ℚ) : Throttles ctx (retryOrFail W ctx h f u).1 0 := by
  have hbranch := retryOrFail_branch W ctx h f u
  generalize retryOrFail W ctx h f u = next at hbranch ⊢
  cases hbranch <;> rfl

theorem throttles_recordThrottle (ctx : WorkerContext) :
    Throttles ctx (ctx.withController (ctx.controller.recordThrottle ctx.now)) 1 := by
  show (ctx.controller.recordThrottle ctx.now).throttleEvents429 = _
  unfold AdaptiveController.recordThrottle
  split <;> rfl

theorem throttles_recordSuccess (ctx : WorkerContext) :
    Throttles ctx (ctx.withController (ctx.controller.recordSuccess ctx.now)) 0 := by
  show (ctx.controller.recordSuccess ctx.now).throttleEvents429 = _
  unfold AdaptiveController.recordSuccess
  split <;> rfl

theorem throttles_afterFailure (W : WorkerConfig R) (ctx : WorkerContext) (h : InHand)
    (outcome : Outcome) (u : ℚ) :
    Throttles ctx (afterFailure W ctx h outcome (.of outcome) u).1
      (if (Failure.of outcome).failureClass = .throttled then 1 else 0) := by
  have hthrottle := throttles_recordThrottle ctx
  have hbranch := afterFailure_branch W ctx h outcome (.of outcome) u
  generalize afterFailure W ctx h outcome (.of outcome) u = next at hbranch ⊢
  cases hbranch with
  | fatal hfatal =>
    rw [if_neg]
    · rfl
    · intro hthrottled
      rw [hthrottled] at hfatal
      cases hfatal
  | throttled hthrottled _ =>
    rw [if_pos hthrottled]
    have hretry := throttles_retryOrFail W
      (ctx.withController (ctx.controller.recordThrottle ctx.now)) h (.of outcome) u
    exact Eq.trans hretry hthrottle
  | failed _ hnot =>
    rw [if_neg hnot]
    exact throttles_retryOrFail W ctx h _ u
  | jittered hthrottled _ _ => rw [if_pos hthrottled]; exact hthrottle
  | hung hthrottled _ _ => rw [if_pos hthrottled]; exact hthrottle
  | paused hthrottled _ _ => rw [if_pos hthrottled]; exact hthrottle

theorem throttles_onSpendCheck (W : WorkerConfig R) (ctx : WorkerContext) :
    Throttles ctx (onSpendCheck W ctx) 0 := by
  unfold onSpendCheck
  split <;> rfl

/-- A turn counts a throttle event exactly if it brings a 429. -/
theorem workerStep_throttles {ws : WorkerState} {input : WorkerInput R} {next : Next}
    (hstep : workerStep W ctx ws input = some next) :
    Throttles ctx next.1 (input.brings W .throttled) := by
  cases workerStep_branch hstep with
  | @took x q _ => exact throttles_takeItem (ctx.withQueue q) x
  | asked _ => exact throttles_loopTop ctx _
  | acquired _ => exact throttles_acquirePass ctx _
  | @replied h start u r raises next _ hcall =>
    show Throttles ctx next.1
      (if (classify (outcomeOf (W.provider.complete r))).1 = .throttled then 1 else 0)
    cases hcall with
    | @succeeded resp _ hclass =>
      rw [hclass]
      exact Eq.trans (throttles_onSpendCheck W (emitSuccess ctx h resp start))
        (throttles_recordSuccess ctx)
    | raised _ hclass _ =>
      rw [hclass]
      exact throttles_recordSuccess ctx
    | failed _ => exact throttles_afterFailure W (recordOutcome ctx _) h _ u
  | jittered _ _ => rfl
  | resumed _ _ => exact throttles_retryOrFail W ctx _ _ _
  | looped _ => exact throttles_loopTop ctx _

end Throttles

/-! ## The account of a run -/

def countOf (c : FailureClass) (answer : Option CallResult) : ℕ :=
  if answer.map classOf = some c then 1 else 0

theorem countOf_some (c : FailureClass) (answer : CallResult) :
    countOf c (some answer) = if classOf answer = c then 1 else 0 := by
  simp only [countOf, Option.map_some, Option.some.injEq]

/-- The answers of this class that no worker has been handed yet. -/
def awaiting {n : ℕ} (c : FailureClass) (answers : Fin n → Option CallResult) : ℕ :=
  ∑ i, countOf c (answers i)

/-- The gate keeps its account, the workers that wait for an answer have one to come, the
calls of the job are those that the gate has seen, and none of them sleeps. -/
structure Billed {n : ℕ} (cfg : MockProviderConfig) (ceiling : ℤ) (b : MockedJob n) : Prop where
  remembers : Remembers cfg ceiling b.served.1 b.served.2 b.job.ctx.wall
  awaited : ∀ i, (b.answers i).isSome = (b.job.workers i).isCalling
  calls : b.job.ctx.calls.length = b.served.2.length
  awake : ∀ i, b.sleeping i = none

section Account

variable {M : MockSetup} {J : JobRunner R} {ceiling : ℤ} {b b' : MockedJob J.concurrency}
  {a : Action R J.concurrency × Draws}

theorem still_wall {s t : State J.concurrency} {a : Action R J.concurrency}
    (hstep : step J s a = some t) (hclock : ∀ dt wall, a = .tick dt wall → s.ctx.wall ≤ wall)
    (hworker : ∀ i input, a ≠ .worker i input) : s.ctx.wall ≤ t.ctx.wall := by
  cases step_turn hstep with
  | tick _ => exact hclock _ _ rfl
  | worker _ _ => exact absurd rfl (hworker _ _)
  | _ => exact le_rfl

theorem awaited_update {n : ℕ} {answers : Fin n → Option CallResult}
    {workers : Fin n → WorkerState} (h : ∀ j, (answers j).isSome = (workers j).isCalling)
    {i : Fin n} {x : Option CallResult} {ws : WorkerState} (hi : x.isSome = ws.isCalling)
    (j : Fin n) :
    (Function.update answers i x j).isSome = (Function.update workers i ws j).isCalling := by
  by_cases hj : j = i
  · subst hj
    rw [Function.update_self, Function.update_self]
    exact hi
  · rw [Function.update_of_ne hj, Function.update_of_ne hj]
    exact h j

/-- A worker that is not woken by an answer has none to come. -/
theorem Billed.unanswered (h : Billed M.cfg ceiling b) {i : Fin J.concurrency}
    {input : WorkerInput R} {next : Next}
    (hstep : workerStep J.toWorkerConfig b.job.ctx (b.job.workers i) input = some next)
    (hinput : input.isReply = false) : b.answers i = none := by
  obtain ⟨e, hturn, -⟩ := workerStep_turn hstep
  have hidle : (b.job.workers i).isCalling = false := (turn_isReply hturn).symm.trans hinput
  exact Option.isNone_iff_eq_none.mp (Option.isSome_eq_false_iff.mp ((h.awaited i).trans hidle))

theorem Billed.step (h : Billed M.cfg ceiling b) (hceiling : M.cfg.hardRpmCeiling = some ceiling)
    (hclock : ClockForward J b a) (ht : MockedTurn M J b a b') : Billed M.cfg ceiling b' := by
  cases ht with
  | still hstep hnot =>
    obtain ⟨hworkers, hcalls, -⟩ := step_still hstep hnot
    exact ⟨h.remembers.later (still_wall hstep hclock hnot), by rw [hworkers]; exact h.awaited,
      by rw [hcalls]; exact h.calls, h.awake⟩
  | @moved i input draws ctx' ws' hstep hinput hidle =>
    have hnone := h.unanswered hstep hinput
    obtain ⟨e, hturn, hdoes⟩ := workerStep_turn hstep
    have hcalls := turn_starts hturn
    rw [hidle] at hcalls
    refine ⟨?_, fun j => ?_, ?_, h.awake⟩
    · rw [show ctx'.wall = b.job.ctx.wall from hdoes.wall]
      exact h.remembers
    · have hnext : (none : Option CallResult).isSome = ws'.isCalling := hidle.symm
      have hupdate : (Function.update b.answers i none j).isSome =
          (Function.update b.job.workers i ws' j).isCalling := awaited_update h.awaited hnext j
      rwa [← hnone, Function.update_eq_self] at hupdate
    · rw [hdoes.calls, List.length_append, hcalls]
      exact h.calls
  | @called i input draws ctx' hand start hstep hinput call hcall =>
    obtain ⟨e, hturn, hdoes⟩ := workerStep_turn hstep
    have hnow : b.job.ctx.wall = call.now := by rw [hcall]
    refine ⟨?_, awaited_update h.awaited rfl, ?_, h.awake⟩
    · show Remembers _ _ _ _ ctx'.wall
      rw [hdoes.wall, hnow]
      exact h.remembers.complete call hnow.le hceiling
    · show ctx'.calls.length = (b.served.2 ++ [_]).length
      rw [hdoes.calls, List.length_append, List.length_append, h.calls, turn_starts hturn]
      rfl
  | @replied i r u raises draws ctx' ws' hstep hanswer =>
    obtain ⟨e, hturn, hdoes⟩ := workerStep_turn hstep
    have hidle := turn_idles hturn rfl
    refine ⟨?_, awaited_update h.awaited hidle.symm, ?_, h.awake⟩
    · rw [show ctx'.wall = b.job.ctx.wall from hdoes.wall]
      exact h.remembers
    · have hcalls := turn_starts hturn
      rw [hidle] at hcalls
      rw [hdoes.calls, List.length_append, hcalls]
      exact h.calls

/-- What has come of the answers of two classes, and what is to come. -/
def accounted {n : ℕ} (b : MockedJob n) : ℕ × ℕ :=
  (b.job.ctx.record.counts.succeeded + awaiting .success b.answers,
    b.job.ctx.controller.throttleEvents429 + awaiting .throttled b.answers)

theorem awaiting_update {n : ℕ} (c : FailureClass) (answers : Fin n → Option CallResult) (i : Fin n)
    (x : Option CallResult) :
    awaiting c (Function.update answers i x) + countOf c (answers i) =
      awaiting c answers + countOf c x :=
  Runs.sum_update_add answers (countOf c) i x

theorem brings_none {W : WorkerConfig R} {input : WorkerInput R} (c : FailureClass)
    (hinput : input.isReply = false) : input.brings W c = 0 := by
  cases input with
  | reply _ _ _ => cases hinput
  | _ => rfl

/-- The successes and the throttle events of the job after a turn. -/
theorem worker_counts {i : Fin J.concurrency} {input : WorkerInput R} {ctx' : WorkerContext}
    {ws' : WorkerState}
    (hstep : workerStep J.toWorkerConfig b.job.ctx (b.job.workers i) input = some (ctx', ws')) :
    ctx'.record.counts.succeeded =
        b.job.ctx.record.counts.succeeded + input.brings J.toWorkerConfig .success ∧
      ctx'.controller.throttleEvents429 =
        b.job.ctx.controller.throttleEvents429 + input.brings J.toWorkerConfig .throttled := by
  obtain ⟨e, hturn, hdoes⟩ := workerStep_turn hstep
  refine ⟨?_, workerStep_throttles hstep⟩
  rw [hdoes.record, ← turn_results hturn]
  exact settles_succeeded e.rows b.job.ctx.record

/-- Only a call changes the account, by what its answer is. -/
theorem MockedTurn.accounted (h : Billed M.cfg ceiling b) (ht : MockedTurn M J b a b') :
    (b'.served = b.served ∧ accounted b' = accounted b) ∨
      ∃ call : MockCall, call.now = b.job.ctx.wall ∧
        (call.draws = a.2 ∧ call.maxTokens = M.maxTokens) ∧
        b'.served = serve M.strRepr b.served call ∧
        accounted b' = accounted b +
          (countOf .success (some (b.served.1.complete M.strRepr call).1),
            countOf .throttled (some (b.served.1.complete M.strRepr call).1)) := by
  have hzero : ∀ c, countOf c none = 0 := fun c => rfl
  cases ht with
  | still hstep hnot =>
    refine Or.inl ⟨rfl, ?_⟩
    cases step_turn hstep with
    | worker _ _ => exact absurd rfl (hnot _ _)
    | _ => rfl
  | @moved i input draws ctx' ws' hstep hinput hidle =>
    obtain ⟨hsucceeded, hthrottled⟩ := worker_counts hstep
    rw [brings_none _ hinput] at hsucceeded hthrottled
    exact Or.inl ⟨rfl, Prod.ext (congrArg (· + _) hsucceeded) (congrArg (· + _) hthrottled)⟩
  | @called i input draws ctx' hand start hstep hinput call hcall =>
    obtain ⟨hsucceeded, hthrottled⟩ := worker_counts hstep
    rw [brings_none _ hinput] at hsucceeded hthrottled
    generalize hanswer : (b.served.1.complete M.strRepr call).1 = answer
    have hnone := h.unanswered hstep hinput
    have hwon := awaiting_update .success b.answers i (some answer)
    have hlost := awaiting_update .throttled b.answers i (some answer)
    rw [hnone] at hwon hlost
    rw [hzero] at hwon hlost
    refine Or.inr ⟨call, by rw [hcall], by rw [hcall]; exact ⟨rfl, rfl⟩, rfl, Prod.ext ?_ ?_⟩
    · show ctx'.record.counts.succeeded +
          awaiting .success (Function.update b.answers i (some _)) = _ + _ + countOf _ (some _)
      rw [hanswer]
      omega
    · show ctx'.controller.throttleEvents429 +
          awaiting .throttled (Function.update b.answers i (some _)) = _ + _ + countOf _ (some _)
      rw [hanswer]
      omega
  | @replied i r u raises draws ctx' ws' hstep hanswer =>
    obtain ⟨hsucceeded, hthrottled⟩ := worker_counts hstep
    have hbrings : ∀ c, (WorkerInput.reply r u raises).brings J.toWorkerConfig c =
        countOf c (b.answers i) := by
      intro c
      rw [hanswer, countOf_some]
      rfl
    have hwon := awaiting_update .success b.answers i none
    have hlost := awaiting_update .throttled b.answers i none
    rw [hbrings] at hsucceeded hthrottled
    rw [hzero] at hwon hlost
    refine Or.inl ⟨rfl, Prod.ext ?_ ?_⟩
    · show ctx'.record.counts.succeeded +
          awaiting .success (Function.update b.answers i none) = _ + _
      omega
    · show ctx'.controller.throttleEvents429 +
          awaiting .throttled (Function.update b.answers i none) = _ + _
      omega

end Account

end BatchEngine.Core
