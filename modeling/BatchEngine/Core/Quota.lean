import BatchEngine.Core.MockedJob
import BatchEngine.Lib.PyDecimal

/-!
# The quota of the upstream

What the simulated quota of the mock provider comes to in a job: how many results it allows,
what the failures of a job are when the quota is all that goes wrong, and what a worker that
waits for the reset of the quota finds.
-/

set_option autoImplicit false

namespace BatchEngine.Core

open BatchEngine.Providers
open MockProvider (admissions serve)

variable {R : Type*}

/-! ## The quota in the results of a job -/

section Runs

variable {M : MockSetup} {J : JobRunner R} {ceiling : ℤ} {b b' : MockedJob J.concurrency}
  {a : Action R J.concurrency × Draws}

theorem admissions_serve (strRepr : String → String) (p : MockProvider × List (ℚ × Gate))
    (call : MockCall) :
    (admissions (serve strRepr p call).2).length =
      (admissions p.2).length + if (p.1.gate call.now).1 = .admitted then 1 else 0 := by
  show (admissions (p.2 ++ [_])).length = _
  rw [MockProvider.admissions_snoc, List.length_append]
  split <;> rfl

/-- The mock has let every call past that became a result, none of them before `first`. -/
structure WithinQuota {n : ℕ} (cfg : MockProviderConfig) (ceiling : ℤ) (first : ℚ)
    (b : MockedJob n) : Prop extends Billed cfg ceiling b where
  completed : (accounted b).1 ≤ (admissions b.served.2).length
  began : first ≤ b.job.ctx.wall ∧ ∀ t ∈ admissions b.served.2, first ≤ t

theorem WithinQuota.step {first : ℚ} (h : WithinQuota M.cfg ceiling first b)
    (hceiling : M.cfg.hardRpmCeiling = some ceiling) (hfatal : M.cfg.fatalStatus ≠ 200)
    (hclock : ClockForward J b a) (ht : MockedTurn M J b a b') :
    WithinQuota M.cfg ceiling first b' := by
  have hbilled := h.toBilled.step hceiling hclock ht
  have hlater : b.job.ctx.wall ≤ b'.job.ctx.wall := by
    cases ht with
    | still hstep hnot => exact still_wall hstep hclock hnot
    | moved hstep _ _ | called hstep _ _ _ | replied hstep _ =>
      obtain ⟨e, -, hdoes⟩ := workerStep_turn hstep
      exact hdoes.wall.ge
  have hbegan : first ≤ b'.job.ctx.wall := h.began.1.trans hlater
  rcases ht.accounted h.toBilled with ⟨hserved, hsame⟩ | ⟨call, hnow, -, hserved, hmore⟩
  · refine ⟨hbilled, ?_, hbegan, ?_⟩ <;> rw [hserved]
    · rw [hsame]
      exact h.completed
    · exact h.began.2
  · refine ⟨hbilled, ?_, hbegan, ?_⟩ <;> rw [hserved]
    · rw [admissions_serve, hmore]
      refine Nat.add_le_add h.completed ?_
      show countOf .success (some _) ≤ _
      unfold countOf
      split
      · rename_i hsuccess
        have hfatal' : b.served.1.cfg.fatalStatus ≠ 200 := by
          rw [h.remembers.cfg_eq]
          exact hfatal
        rw [if_pos (success_admitted hfatal' (Option.some.inj hsuccess))]
      · exact Nat.zero_le _
    · intro t ht
      change t ∈ admissions (b.served.2 ++ [_]) at ht
      rw [MockProvider.admissions_snoc] at ht
      rcases List.mem_append.mp ht with ht | ht
      · exact h.began.2 t ht
      · split at ht
        · rw [List.mem_singleton.mp ht, hnow]
          exact h.began.1
        · exact absurd ht List.not_mem_nil

theorem start_billed (M : MockSetup) (J : JobRunner R) (ceiling : ℤ) (now wall : ℚ) :
    Billed M.cfg ceiling (J.startMocked M now wall) :=
  ⟨⟨rfl, rfl, Window.tracks_nil, Window.capped_nil⟩, fun _ => rfl, rfl, fun _ => rfl⟩

theorem start_accounted (M : MockSetup) (J : JobRunner R) (now wall : ℚ) :
    accounted (J.startMocked M now wall) = (0, 0) := by
  have hnone : ∀ c, awaiting c (J.startMocked M now wall).answers = 0 := fun c =>
    Finset.sum_eq_zero fun _ _ => rfl
  exact Prod.ext ((Nat.zero_add _).trans (hnone .success))
    ((Nat.zero_add _).trans (hnone .throttled))

theorem run_withinQuota {now wall : ℚ} {actions : List (Action R J.concurrency × Draws)}
    (hdelay : M.cfg.simulateDelay = false) (hceiling : M.cfg.hardRpmCeiling = some ceiling)
    (hfatal : M.cfg.fatalStatus ≠ 200)
    (hrun : Runs.exec (mockedStep M J) (J.startMocked M now wall) actions = some b)
    (hclock : Runs.Along (mockedStep M J) (ClockForward J) (J.startMocked M now wall) actions) :
    WithinQuota M.cfg ceiling wall b := by
  refine Runs.Along.invariant (I := WithinQuota M.cfg ceiling wall)
    (fun _ _ _ hs hforward hstep =>
      hs.step hceiling hfatal hforward (mockedStep_turn hdelay hs.awake hstep))
    ?_ hclock hrun
  exact ⟨start_billed M J ceiling now wall, (congrArg Prod.fst (start_accounted M J now wall)).le,
    le_rfl, fun t ht => absurd ht List.not_mem_nil⟩

/-- Without a simulated delay the account quota bounds what a job gets done, however its workers
are scheduled and whatever the mock draws: each result is a call that the gate let past, no
window of `window_s` has more of these than the ceiling, and so a run has no more results than
the ceiling for each window that it has begun. -/
theorem quota_bounds_results (hdelay : M.cfg.simulateDelay = false)
    (hceiling : M.cfg.hardRpmCeiling = some ceiling) (hwindow : 0 < M.cfg.windowS)
    (hfatal : M.cfg.fatalStatus ≠ 200) {now wall : ℚ}
    {actions : List (Action R J.concurrency × Draws)}
    (hrun : Runs.exec (mockedStep M J) (J.startMocked M now wall) actions = some b)
    (hclock : Runs.Along (mockedStep M J) (ClockForward J) (J.startMocked M now wall) actions) :
    b.job.ctx.calls.length = b.served.2.length ∧
      b.job.ctx.record.counts.succeeded ≤ (admissions b.served.2).length ∧
      (∀ start, Window.inside M.cfg.windowS start (admissions b.served.2) ≤ ceiling.toNat) ∧
      b.job.ctx.record.counts.succeeded ≤
        ceiling.toNat * (⌊(b.job.ctx.wall - wall) / M.cfg.windowS⌋₊ + 1) := by
  have hquota := run_withinQuota hdelay hceiling hfatal hrun hclock
  have hresults : b.job.ctx.record.counts.succeeded ≤ (admissions b.served.2).length :=
    (Nat.le_add_right _ _).trans hquota.completed
  have hcapped := hquota.remembers.capped
  have hlength := hcapped.length_le hwindow hquota.began.2 hquota.remembers.tracks.past
  exact ⟨hquota.calls, hresults, hcapped, hresults.trans hlength⟩

/-! ## Without chaos -/

/-- Every answer so far is a completion or a refusal of the quota. -/
structure OnlyThrottled {n : ℕ} (cfg : MockProviderConfig) (ceiling : ℤ) (b : MockedJob n) :
    Prop extends Billed cfg ceiling b where
  answers : ∀ i answer, b.answers i = some answer →
    classOf answer = .success ∨ classOf answer = .throttled
  completed : (accounted b).1 = (admissions b.served.2).length
  refused : (accounted b).2 + (admissions b.served.2).length = b.served.2.length

theorem OnlyThrottled.step (h : OnlyThrottled M.cfg ceiling b)
    (hceiling : M.cfg.hardRpmCeiling = some ceiling) (hpos : 0 < ceiling) (hcalm : CalmMock M.cfg)
    (htokens : -1 ≤ M.maxTokens) (hclock : ClockForward J b a) (hdraws : DrawsUnit a.2)
    (ht : MockedTurn M J b a b') :
    OnlyThrottled M.cfg ceiling b' := by
  have hbilled := h.toBilled.step hceiling hclock ht
  have hcfg := h.remembers.cfg_eq
  have hclass : ∀ call : MockCall, call.draws = a.2 ∧ call.maxTokens = M.maxTokens →
      classOf (b.served.1.complete M.strRepr call).1 =
        if (b.served.1.gate call.now).1 = .admitted then .success else .throttled :=
    fun call hcall => complete_calm (by rwa [hcfg]) (by rwa [hcfg]) hpos (by rwa [hcall.1])
      (by rwa [hcall.2])
  have hanswers : ∀ i answer, b'.answers i = some answer →
      classOf answer = .success ∨ classOf answer = .throttled := by
    cases ht with
    | still _ _ => exact h.answers
    | moved _ _ _ => exact h.answers
    | @called i _ _ _ _ _ _ _ call hcall =>
      intro j answer hanswer
      by_cases hj : j = i
      · subst hj
        change Function.update b.answers j _ j = _ at hanswer
        rw [Function.update_self] at hanswer
        rw [← Option.some.inj hanswer, hclass call (by rw [hcall]; exact ⟨rfl, rfl⟩)]
        split
        · exact Or.inl rfl
        · exact Or.inr rfl
      · change Function.update b.answers i _ j = _ at hanswer
        rw [Function.update_of_ne hj] at hanswer
        exact h.answers j answer hanswer
    | @replied i _ _ _ _ _ _ _ _ =>
      intro j answer hanswer
      change Function.update b.answers i _ j = _ at hanswer
      by_cases hj : j = i
      · rw [hj, Function.update_self] at hanswer
        cases hanswer
      · rw [Function.update_of_ne hj] at hanswer
        exact h.answers j answer hanswer
  rcases ht.accounted h.toBilled with ⟨hserved, hsame⟩ | ⟨call, -, hcall, hserved, hmore⟩
  · refine ⟨hbilled, hanswers, ?_, ?_⟩ <;> rw [hserved, hsame]
    · exact h.completed
    · exact h.refused
  · have hlength : (serve M.strRepr b.served call).2.length = b.served.2.length + 1 :=
      List.length_append
    have hwon : (accounted b').1 = (accounted b).1 +
        countOf .success (some (b.served.1.complete M.strRepr call).1) := congrArg Prod.fst hmore
    have hlost : (accounted b').2 = (accounted b).2 +
        countOf .throttled (some (b.served.1.complete M.strRepr call).1) := congrArg Prod.snd hmore
    have hcompleted := h.completed
    have hrefused := h.refused
    rw [countOf_some] at hwon hlost
    by_cases hadmitted : (b.served.1.gate call.now).1 = .admitted
    · rw [hclass call hcall, if_pos hadmitted] at hwon hlost
      refine ⟨hbilled, hanswers, ?_, ?_⟩ <;> rw [hserved, admissions_serve, if_pos hadmitted]
      · rw [hwon, hcompleted]
        rfl
      · rw [hlost, hlength, ← hrefused]
        rfl
    · rw [hclass call hcall, if_neg hadmitted] at hwon hlost
      refine ⟨hbilled, hanswers, ?_, ?_⟩ <;> rw [hserved, admissions_serve, if_neg hadmitted]
      · rw [hwon, hcompleted]
        rfl
      · rw [hlost, hlength, ← hrefused, Nat.add_right_comm]
        rfl

/-- An error row tells of a refused entry, of attempts or retries used up, of the cancel
request or of the spend cap. -/
def Blamed (J : JobRunner R) (ctx : WorkerContext) (e : RowError) : Prop :=
  e.failureClass = .transientExhausted ∨ .error e ∈ J.input.entries ∨
    (e.failureClass = .cancelled ∧ ctx.cancelEvent = true) ∨
    (e.failureClass = .fatalAuth ∧ ctx.abortEvent = true)

/-- All error rows do, and no fatal answer has filled the boxes. -/
structure BlamesQuota (J : JobRunner R) (s : State J.concurrency) : Prop where
  rows : ∀ e, .error e ∈ s.ctx.sink.submitted → Blamed J s.ctx e
  boxes : s.ctx.abortClass = []

theorem Blamed.later {ctx ctx' : WorkerContext} {e : RowError} (h : Blamed J ctx e)
    (hcancel : ctx.cancelEvent = true → ctx'.cancelEvent = true)
    (habort : ctx.abortEvent = true → ctx'.abortEvent = true) : Blamed J ctx' e := by
  rcases h with hclass | hentry | ⟨hclass, hcancelled⟩ | ⟨hclass, haborted⟩
  · exact Or.inl hclass
  · exact Or.inr (Or.inl hentry)
  · exact Or.inr (Or.inr (Or.inl ⟨hclass, hcancel hcancelled⟩))
  · exact Or.inr (Or.inr (Or.inr ⟨hclass, habort haborted⟩))

theorem guarded_failureClass (boxes : AbortBoxes) (W : WorkerConfig R) (record : JobRecord) :
    (boxes.guarded W record).failureClass = boxes.failureClass := by
  unfold AbortBoxes.guarded
  split <;> rfl

/-- What a turn adds, if the answers are completions and refusals of the quota. -/
theorem emission_blames {s : State J.concurrency} (hs : BlamesQuota J s) (hreach : Reachable J s)
    {i : Fin J.concurrency} {input : WorkerInput R} {ctx' : WorkerContext} {rows : List Row}
    {boxes : AbortBoxes}
    (hanswer : ∀ r u raises, input = .reply r u raises →
      classOf (J.provider.complete r) = .success ∨ classOf (J.provider.complete r) = .throttled)
    (hemission : Emission J.toWorkerConfig s.ctx ctx' (s.workers i) input rows boxes) :
    (∀ e, .error e ∈ rows → Blamed J s.ctx e) ∧ boxes.failureClass = [] := by
  have hboxes : s.ctx.boxes.failureClass = [] := hs.boxes
  have hwaits := reachable_throttled hreach i
  generalize s.workers i = ws at hemission hwaits
  cases hemission with
  | quiet _ => exact ⟨fun e he => absurd he List.not_mem_nil, hboxes⟩
  | passed hqueue =>
    refine ⟨fun e he => ?_, hboxes⟩
    obtain rfl := Row.error.inj (List.mem_singleton.mp he)
    exact Or.inr (Or.inl (reachable_sources hreach _ (queued_unresolved hqueue)))
  | cancelled _ hcancel hclass =>
    refine ⟨fun e he => ?_, hboxes⟩
    obtain rfl := Row.error.inj (List.mem_singleton.mp he)
    exact Or.inr (Or.inr (Or.inl ⟨hclass, hcancel⟩))
  | aborted _ _ habort hclass =>
    refine ⟨fun e he => ?_, hboxes⟩
    obtain rfl := Row.error.inj (List.mem_singleton.mp he)
    rw [hs.boxes] at hclass
    exact Or.inr (Or.inr (Or.inr ⟨hclass, habort⟩))
  | succeeded _ =>
    refine ⟨fun e he => ?_, (guarded_failureClass _ _ _).trans hboxes⟩
    cases List.mem_singleton.mp he
  | raised _ herror =>
    refine ⟨fun e he => ?_, hboxes⟩
    rcases List.mem_cons.mp he with he | he
    · cases he
    · obtain rfl := Row.error.inj (List.mem_singleton.mp he)
      exact Or.inl herror
  | @fatal _ _ _ r _ hfatal _ =>
    rcases hanswer _ _ _ rfl with hclass | hclass
    · rw [show (classify (outcomeOf (J.provider.complete r))).1 = .success from hclass] at hfatal
      cases hfatal
    · rw [show (classify (outcomeOf (J.provider.complete r))).1 = .throttled from hclass] at hfatal
      cases hfatal
  | @failed _ _ _ r _ hsuccess _ _ hclass =>
    refine ⟨fun e he => ?_, hboxes⟩
    obtain rfl := Row.error.inj (List.mem_singleton.mp he)
    have hthrottled : (classify (outcomeOf (J.provider.complete r))).1 = .throttled :=
      (hanswer _ _ _ rfl).resolve_left hsuccess
    rw [hthrottled] at hclass
    exact Or.inl hclass
  | gaveUp hclass =>
    refine ⟨fun e he => ?_, hboxes⟩
    obtain rfl := Row.error.inj (List.mem_singleton.mp he)
    have hthrottled : _ = FailureClass.throttled := hwaits
    rw [hthrottled] at hclass
    exact Or.inl hclass
  | exhausted _ hclass =>
    refine ⟨fun e he => ?_, hboxes⟩
    obtain rfl := Row.error.inj (List.mem_singleton.mp he)
    exact Or.inl hclass

/-- The rows are explained in the state after the turn too. -/
theorem worker_blames {s : State J.concurrency} (hs : BlamesQuota J s) (hreach : Reachable J s)
    {i : Fin J.concurrency} {input : WorkerInput R} {ctx' : WorkerContext} {ws' : WorkerState}
    (hanswer : ∀ r u raises, input = .reply r u raises →
      classOf (J.provider.complete r) = .success ∨ classOf (J.provider.complete r) = .throttled)
    (hstep : workerStep J.toWorkerConfig s.ctx (s.workers i) input = some (ctx', ws')) :
    BlamesQuota J { s with ctx := ctx', workers := Function.update s.workers i ws' } := by
  obtain ⟨rows, boxes, hemission, hleaves⟩ := workerStep_emission hstep
  obtain ⟨e, -, hdoes⟩ := workerStep_turn hstep
  obtain ⟨hrows, hboxes⟩ := emission_blames hs hreach hanswer hemission
  refine ⟨fun err herr => ?_, ?_⟩
  · have hknown : Blamed J s.ctx err := by
      change .error err ∈ ctx'.sink.submitted at herr
      rw [hleaves.submitted] at herr
      rcases List.mem_append.mp herr with herr | herr
      · exact hs.rows err herr
      · exact hrows err herr
    refine hknown.later hdoes.cancelEvent.trans fun habort => ?_
    exact hdoes.abortEvent.trans (by rw [habort]; rfl)
  · exact (congrArg AbortBoxes.failureClass hleaves.boxes).trans hboxes

/-- No other party adds rows, empties a box or takes an event back. -/
theorem still_blames {s s' : State J.concurrency} {a : Action R J.concurrency}
    (hs : BlamesQuota J s) (hstep : step J s a = some s') (hnot : ∀ i input, a ≠ .worker i input) :
    BlamesQuota J s' := by
  have hturn := step_turn hstep
  have hrows := (step_rows hturn hnot).1
  have hkept : s'.ctx.abortClass = s.ctx.abortClass ∧ s'.ctx.abortEvent = s.ctx.abortEvent ∧
      (s.ctx.cancelEvent = true → s'.ctx.cancelEvent = true) := by
    cases hturn with
    | worker _ _ => exact absurd rfl (hnot _ _)
    | cancel => exact ⟨rfl, rfl, fun _ => rfl⟩
    | _ => exact ⟨rfl, rfl, id⟩
  refine ⟨fun e he => ?_, hkept.1.trans hs.boxes⟩
  rw [hrows] at he
  exact (hs.rows e he).later hkept.2.2 hkept.2.1.trans

theorem MockedTurn.job (ht : MockedTurn M J b a b') : step J b.job a.1 = some b'.job := by
  cases ht with
  | still hstep _ => exact hstep
  | moved hstep _ _ | called hstep _ _ _ | replied hstep _ =>
    exact congrArg (Option.map _) hstep

/-- The state of both in a run without chaos. -/
structure CalmRun (M : MockSetup) (J : JobRunner R) (ceiling : ℤ) (b : MockedJob J.concurrency) :
    Prop where
  reachable : Reachable J b.job
  answered : OnlyThrottled M.cfg ceiling b
  blames : BlamesQuota J b.job

theorem CalmRun.step (h : CalmRun M J ceiling b) (hceiling : M.cfg.hardRpmCeiling = some ceiling)
    (hpos : 0 < ceiling) (hcalm : CalmMock M.cfg) (htokens : -1 ≤ M.maxTokens)
    (hclock : ClockForward J b a)
    (hdraws : DrawsUnit a.2) (ht : MockedTurn M J b a b') : CalmRun M J ceiling b' := by
  refine ⟨h.reachable.step ht.job, h.answered.step hceiling hpos hcalm htokens hclock hdraws ht, ?_⟩
  cases ht with
  | still hstep hnot => exact still_blames h.blames hstep hnot
  | moved hstep hinput _ | called hstep hinput _ _ =>
    refine worker_blames h.blames h.reachable (fun r u raises hreply => ?_) hstep
    rw [hreply] at hinput
    cases hinput
  | replied hstep hanswer =>
    refine worker_blames h.blames h.reachable (fun r u raises hreply => ?_) hstep
    obtain ⟨rfl, -, -⟩ := WorkerInput.reply.inj hreply
    exact h.answered.answers _ _ hanswer

theorem run_calm {now wall : ℚ} {actions : List (Action R J.concurrency × Draws)}
    (hdelay : M.cfg.simulateDelay = false) (htokens : -1 ≤ M.maxTokens)
    (hceiling : M.cfg.hardRpmCeiling = some ceiling) (hpos : 0 < ceiling) (hcalm : CalmMock M.cfg)
    (hrun : Runs.exec (mockedStep M J) (J.startMocked M now wall) actions = some b)
    (hfair : Runs.Along (mockedStep M J) (fun b a => ClockForward J b a ∧ DrawsUnit a.2)
      (J.startMocked M now wall) actions) : CalmRun M J ceiling b := by
  refine Runs.Along.invariant (I := CalmRun M J ceiling)
    (fun _ _ _ hs hboth hstep =>
      hs.step hceiling hpos hcalm htokens hboth.1 hboth.2
        (mockedStep_turn hdelay hs.answered.awake hstep))
    ⟨reachable_start J now wall, ⟨start_billed M J ceiling now wall, ?_, ?_, ?_⟩, ?_⟩ hfair hrun
  · exact fun i answer hanswer => by cases hanswer
  · rw [start_accounted]
    rfl
  · rw [start_accounted]
    rfl
  · exact ⟨fun e he => absurd he List.not_mem_nil, rfl⟩

/-- The calls under way are the answers to come. -/
theorem OnlyThrottled.inFlight (h : OnlyThrottled M.cfg ceiling b) (hreach : Reachable J b.job) :
    b.job.ctx.record.counts.inFlight =
      (awaiting .success b.answers : ℤ) + awaiting .throttled b.answers := by
  rw [reachable_flying hreach, awaiting, awaiting, Nat.cast_sum, Nat.cast_sum,
    ← Finset.sum_add_distrib]
  refine Finset.sum_congr rfl fun i _ => ?_
  have hawaited := h.awaited i
  rw [WorkerState.flight, ← hawaited]
  cases hanswer : b.answers i with
  | none => rfl
  | some answer =>
    rw [countOf_some, countOf_some]
    rcases h.answers i answer hanswer with hclass | hclass <;> rw [hclass] <;> rfl

/-- A job against nothing but the quota: in every state of every run each call that it has
made is a result, a throttle event or still under way, and an item fails only because its
retries ran out, unless the batch file, a cancel request or the spend cap is to blame. -/
theorem throttled_only (hdelay : M.cfg.simulateDelay = false) (htokens : -1 ≤ M.maxTokens)
    (hceiling : M.cfg.hardRpmCeiling = some ceiling) (hpos : 0 < ceiling) (hcalm : CalmMock M.cfg)
    {now wall : ℚ} {actions : List (Action R J.concurrency × Draws)}
    (hrun : Runs.exec (mockedStep M J) (J.startMocked M now wall) actions = some b)
    (hfair : Runs.Along (mockedStep M J) (fun b a => ClockForward J b a ∧ DrawsUnit a.2)
      (J.startMocked M now wall) actions) :
    (b.job.ctx.calls.length : ℤ) = b.job.ctx.record.counts.succeeded +
        b.job.ctx.controller.throttleEvents429 + b.job.ctx.record.counts.inFlight ∧
      (∀ e, .error e ∈ b.job.ctx.sink.submitted →
        e.failureClass = .transientExhausted ∨ .error e ∈ J.input.entries ∨
          (e.failureClass = .cancelled ∧ b.job.ctx.cancelEvent = true) ∨
          (e.failureClass = .fatalAuth ∧ b.job.ctx.abortEvent = true)) ∧
      ((∀ e, .error e ∉ J.input.entries) → b.job.ctx.cancelEvent = false →
        b.job.ctx.abortEvent = false →
        Dict.total b.job.ctx.record.errorsByClass = b.job.ctx.record.counts.failed ∧
          ∀ c ∈ b.job.ctx.record.errorsByClass.map Prod.fst, c = .transientExhausted) := by
  obtain ⟨hreach, hanswered, hblames⟩ := run_calm hdelay htokens hceiling hpos hcalm hrun hfair
  refine ⟨?_, hblames.rows, fun hitems hcancel habort => ⟨(reachable_tallied hreach).errors, ?_⟩⟩
  · have hinFlight := hanswered.inFlight hreach
    have hcompleted : b.job.ctx.record.counts.succeeded + awaiting .success b.answers =
        (admissions b.served.2).length := hanswered.completed
    have hrefused : b.job.ctx.controller.throttleEvents429 + awaiting .throttled b.answers +
        (admissions b.served.2).length = b.served.2.length := hanswered.refused
    have hcalls := hanswered.calls
    omega
  · intro c hc
    obtain ⟨e, he, rfl⟩ := reachable_classes hreach c hc
    rcases hblames.rows e he with hclass | hentry | ⟨-, hcancelled⟩ | ⟨-, haborted⟩
    · exact hclass
    · exact absurd hentry (hitems e)
    · rw [hcancel] at hcancelled
      cases hcancelled
    · rw [habort] at haborted
      cases haborted

end Runs

/-- `threePrompts` against a quota of one call a minute. -/
def onePerMinute : MockSetup where
  cfg := { hardRpmCeiling := some 1 }
  strRepr := MockProvider.quoted
  maxTokens := 8

def evenDraws : Draws := ⟨1, 1, 1, 1, 1, 8, 1⟩

/-- What the mock answers to the first call and to the second. -/
def helloAnswers : CallResult × CallResult :=
  let hello : MockCall := ⟨0, "hello", 8, evenDraws⟩
  let first := ({ cfg := onePerMinute.cfg } : MockProvider).complete MockProvider.quoted hello
  (first.1, (first.2.complete MockProvider.quoted hello).1)

/-- Two prompts are sent and answered, the second by a 429. -/
def onePerMinuteActions : List (Action CallResult 3) :=
  List.replicate 7 (.runner false) ++
  [.nth 0 .take, .nth 1 .take, .nth 1 (.reply helloAnswers.2 0 false),
    .nth 0 (.reply helloAnswers.1 0 false)]

def onePerMinuteRun : List (Action CallResult threePrompts.concurrency × Draws) :=
  onePerMinuteActions.map fun a => (a, evenDraws)

def onePerMinuteEnd : MockedJob threePrompts.concurrency :=
  (Runs.exec (mockedStep onePerMinute threePrompts) (threePrompts.startMocked onePerMinute 0 0)
    onePerMinuteRun).get (by decide +kernel)

theorem onePerMinute_run : Runs.exec (mockedStep onePerMinute threePrompts)
    (threePrompts.startMocked onePerMinute 0 0) onePerMinuteRun = some onePerMinuteEnd :=
  (Option.some_get _).symm

theorem onePerMinute_noTick (dt wall : ℚ) : .tick dt wall ∉ onePerMinuteActions := by
  simp [onePerMinuteActions, Action.nth]

theorem onePerMinute_fair :
    Runs.Along (mockedStep onePerMinute threePrompts)
      (fun b a => ClockForward threePrompts b a ∧ DrawsUnit a.2)
      (threePrompts.startMocked onePerMinute 0 0) onePerMinuteRun := by
  refine Runs.Along.of_forall fun a ha b => ?_
  obtain ⟨a, hmem, rfl⟩ := List.mem_map.mp ha
  have hdraws : DrawsUnit evenDraws := by decide +kernel
  refine ⟨fun dt wall htick => ?_, hdraws⟩
  obtain rfl : a = .tick dt wall := htick
  exact absurd hmem (onePerMinute_noTick dt wall)

theorem quota_bounds_results_onePerMinute :
    onePerMinuteEnd.job.ctx.calls.length = 2 ∧
      onePerMinuteEnd.job.ctx.record.counts.succeeded ≤ 1 := by
  have hwindow : 0 < onePerMinute.cfg.windowS := by decide +kernel
  have hfatal : onePerMinute.cfg.fatalStatus ≠ 200 := by decide +kernel
  obtain ⟨-, -, -, hbound⟩ := quota_bounds_results rfl rfl hwindow hfatal onePerMinute_run
    (Runs.along_and.mp onePerMinute_fair).1
  have hwindows : ⌊(onePerMinuteEnd.job.ctx.wall - 0) / onePerMinute.cfg.windowS⌋₊ = 0 := by
    decide +kernel
  rw [hwindows] at hbound
  exact ⟨by decide +kernel, hbound⟩

theorem throttled_only_onePerMinute :
    onePerMinuteEnd.job.ctx.controller.throttleEvents429 = 1 ∧
      (onePerMinuteEnd.job.ctx.calls.length : ℤ) =
        onePerMinuteEnd.job.ctx.record.counts.succeeded +
          onePerMinuteEnd.job.ctx.controller.throttleEvents429 +
            onePerMinuteEnd.job.ctx.record.counts.inFlight := by
  have hceiling : onePerMinute.cfg.hardRpmCeiling = some 1 := rfl
  have hcalm : CalmMock onePerMinute.cfg :=
    ⟨le_rfl, le_rfl, le_rfl, le_rfl, le_rfl, le_rfl, rfl⟩
  have htokens : -1 ≤ onePerMinute.maxTokens := by decide
  exact ⟨by decide +kernel,
    (throttled_only rfl htokens hceiling Int.one_pos hcalm onePerMinute_run onePerMinute_fair).1⟩

/-! ## The reset header -/

section Reset

open MockProvider (served)

variable {strRepr : String → String} {cfg : MockProviderConfig} {ceiling : ℤ} {resetAt : ℚ}

/-- What a worker reads in the header of such a 429. -/
theorem resetEpoch_headers (m : MockProvider) {resp : ProviderResponse} (left : ℤ)
    (hheaders : resp.headers = m.headers left resetAt) (hreset : 1 ≤ resetAt) :
    resetEpoch (.response resp) = some (Py.toFloat ⌊resetAt⌋₊) := by
  have hnonneg : 0 ≤ resetAt := zero_le_one.trans hreset
  have htrunc : Py.trunc resetAt = (⌊resetAt⌋₊ : ℤ) := by
    rw [Py.trunc, if_pos hnonneg, Int.natCast_floor_eq_floor hnonneg]
  have hget : Dict.get? resp.headers "x-ratelimit-reset-requests" = some (toString ⌊resetAt⌋₊) := by
    have htext : toString (Py.trunc resetAt) = toString ⌊resetAt⌋₊ := by
      rw [htrunc]
      rfl
    rw [hheaders, MockProvider.headers, htext]
    rfl
  have hread := Py.floatOfString_toString ⌊resetAt⌋₊
  have hne : toString ⌊resetAt⌋₊ ≠ "" := by
    intro hempty
    have hnone : Py.floatOfString "" = none := by decide +kernel
    rw [hempty, hnone] at hread
    cases hread
  have hpos : 0 < ⌊resetAt⌋₊ := Nat.floor_pos.mpr hreset
  simp only [resetEpoch, hget, if_neg hne, hread, Py.toFloat_natCast hpos]
  by_cases hfloat : ⌊resetAt⌋₊ < Py.floatBound
  · simp only [if_pos hfloat, if_pos (Nat.cast_pos (α := ℚ).mpr hpos)]
  · simp only [if_neg hfloat]

/-- The header of a refusal is rounded down, so a worker that sleeps it out comes too early:
nobody is let past until after the exact reset time, and when the sleep ends, at the
announced second, the gate is still closed. -/
theorem woken_early (strRepr : String → String) (hceiling : cfg.hardRpmCeiling = some ceiling)
    {before after : List MockCall} {call : MockCall}
    (hexceeded : ((served strRepr cfg before).1.gate call.now).1 = .exceeded resetAt)
    (hreset : 1 ≤ resetAt)
    (hclock : ((before ++ call :: after).map MockCall.now).Pairwise (· ≤ ·))
    (hafter : ∀ c ∈ after, c.now ≤ resetAt) :
    resetEpoch (outcomeOf ((served strRepr cfg before).1.complete strRepr call).1) =
        some (Py.toFloat ⌊resetAt⌋₊) ∧
      admissions (served strRepr cfg (before ++ call :: after)).2 =
        admissions (served strRepr cfg before).2 ∧
      ∀ now', (∀ c ∈ before ++ call :: after, c.now ≤ now') →
        (((served strRepr cfg (before ++ call :: after)).1.gate now').1 = .admitted ↔
          ¬ MockProvider.Exhausted cfg ((before ++ call :: after).length + 1) ∧ resetAt < now') ∧
        ∀ wall waitS, resetPause (Py.toFloat ⌊resetAt⌋₊) wall = some (some waitS) →
          now' = wall + waitS →
            ((served strRepr cfg (before ++ call :: after)).1.gate now').1 ≠ .admitted := by
  have hclosed := MockProvider.closed_until_reset strRepr hceiling hexceeded after hclock hafter
  refine ⟨?_, hclosed, fun now' hnow => ?_⟩
  · unfold MockProvider.complete MockProvider.reply
    split <;> rename_i next hgate <;> rw [hgate] at hexceeded
    · cases hexceeded
    · obtain rfl := Gate.exceeded.inj hexceeded
      exact resetEpoch_headers next 0 rfl hreset
    · cases hexceeded
    · cases hexceeded
  · have hopen := MockProvider.open_after_reset strRepr hceiling hexceeded hclock hafter hnow
    refine ⟨hopen, fun wall waitS hpause hwake hadmitted => ?_⟩
    have hlate := (hopen.mp hadmitted).2
    have hwait : wall + waitS = (⌊resetAt⌋₊ : ℕ) := by
      rw [Py.toFloat_natCast (Nat.floor_pos.mpr hreset)] at hpause
      split at hpause
      swap
      · cases hpause
      simp only [resetPause] at hpause
      split at hpause
      · rename_i hpos
        have hmax : max 0 ((⌊resetAt⌋₊ : ℚ) - wall) = waitS :=
          Option.some.inj (Option.some.inj hpause)
        have hahead : 0 < (⌊resetAt⌋₊ : ℚ) - wall := (lt_max_iff.mp hpos).resolve_left (lt_irrefl 0)
        rw [← hmax, max_eq_right hahead.le]
        exact add_sub_cancel wall _
      · cases hpause
    rw [hwake, hwait] at hlate
    exact absurd (Nat.floor_le (zero_le_one.trans hreset)) (not_le.mpr hlate)

end Reset

theorem woken_early_threeCalls :
    ((MockProvider.served MockProvider.quoted MockProvider.twoPerMinute
      MockProvider.threeCalls).1.gate 60).1 ≠ .admitted := by
  let third : MockCall := ⟨20, "hi", 8, ⟨1, 1, 1, 1, 1, 8, 1⟩⟩
  have hcalls : MockProvider.threeCalls = MockProvider.threeCalls.take 2 ++ [third] := rfl
  have hclock : ((MockProvider.threeCalls.take 2 ++ [third]).map
      MockCall.now).Pairwise (· ≤ ·) := by
    decide +kernel
  have hexceeded : ((MockProvider.served MockProvider.quoted MockProvider.twoPerMinute
      (MockProvider.threeCalls.take 2)).1.gate third.now).1 = .exceeded (121 / 2) := by
    decide +kernel
  have hearlier : ∀ c ∈ MockProvider.threeCalls.take 2 ++ [third], c.now ≤ 60 := by decide +kernel
  have hceiling : MockProvider.twoPerMinute.hardRpmCeiling = some 2 := rfl
  obtain ⟨-, -, hgate⟩ := woken_early MockProvider.quoted hceiling hexceeded (by decide +kernel)
    hclock fun c hc => absurd hc List.not_mem_nil
  have hpause : resetPause (Py.toFloat ⌊(121 / 2 : ℚ)⌋₊) 20 = some (some 40) := by decide +kernel
  rw [hcalls]
  exact (hgate 60 hearlier).2 20 40 hpause (by decide +kernel)

end BatchEngine.Core
