import BatchEngine.Core.FinalStatus
import BatchEngine.Core.SpendGuard

/-!
# What the failure classes tell

The class of an error row is chosen in many places, at the top of the loop from a box
that the fatal answers fill and the spend guard does not. This module says when the
classes tell what happened.
-/

set_option autoImplicit false

namespace BatchEngine.Core

open BatchEngine.Providers

variable {R : Type*} {J : JobRunner R}

/-- What must have happened for an error row to have its class. -/
def History.Explains (J : JobRunner R) (hist : History) (e : RowError) : Prop :=
  match e.failureClass with
  | .invalidInput => .error e ∈ J.input.entries ∨
      ∃ p ∈ hist.replies, p.1 = e.itemId ∧ p.2.HasStatus [400, 413, 422]
  | .fatalAuth => ∃ p ∈ hist.replies, p.2.HasStatus [401, 403]
  | .fatalBilling => ∃ p ∈ hist.replies, p.2.HasStatus [402]
  | .transientExhausted => True
  | .cancelled => hist.cancelled = true
  | .success | .throttled | .transient => False

/-- Every error row is explained by what has happened, and every class that is counted is
the class of an error row. -/
structure TellTrue (J : JobRunner R) (s : State J.concurrency) (hist : History) : Prop where
  rows : ∀ e, .error e ∈ s.ctx.sink.submitted → hist.Explains J e
  classes : ∀ c ∈ s.ctx.record.errorsByClass.map Prod.fst,
    ∃ e, .error e ∈ s.ctx.sink.submitted ∧ e.failureClass = c

/-- The turn resolves an item because the job is aborted, and no answer has said why. -/
def Unclassed (J : JobRunner R) (s : State J.concurrency) (a : Action R J.concurrency) : Prop :=
  ∃ i input, a = .worker i input ∧ AtTop s.ctx (s.workers i) input ∧
    s.ctx.cancelEvent = false ∧ s.ctx.abortEvent = true ∧ s.ctx.abortClass = []

def StepTells (J : JobRunner R) (p : State J.concurrency × History)
    (a : Action R J.concurrency) : Prop :=
  ∀ q, recountedStep J p a = some q → TellTrue J q.1 q.2

def StepClassed (J : JobRunner R) (p : State J.concurrency × History)
    (a : Action R J.concurrency) : Prop :=
  ∀ q, recountedStep J p a = some q → ¬ Unclassed J p.1 a

/-! ## The classes that are counted -/

theorem settles_keys (rows : List Row) : ∀ {record : JobRecord} {c : FailureClass},
    c ∈ (rows.foldl JobRecord.settle record).errorsByClass.map Prod.fst →
      c ∈ record.errorsByClass.map Prod.fst ∨ ∃ e, .error e ∈ rows ∧ e.failureClass = c := by
  induction rows with
  | nil => exact fun h => Or.inl h
  | cons row rows ih =>
    intro record c h
    rcases ih h with h | ⟨e, he, hclass⟩
    · cases row with
      | result r => exact Or.inl h
      | error e =>
        rcases Dict.mem_keys_set h with rfl | h
        · exact Or.inr ⟨e, List.mem_cons_self, rfl⟩
        · exact Or.inl h
    · exact Or.inr ⟨e, List.mem_cons_of_mem _ he, hclass⟩

/-- Only a worker's turn adds rows or counts classes. -/
theorem step_rows {s s' : State J.concurrency} {a : Action R J.concurrency}
    (h : JobTurn J s a s') (hnot : ∀ i input, a ≠ .worker i input) :
    s'.ctx.sink.submitted = s.ctx.sink.submitted ∧
      s'.ctx.record.errorsByClass = s.ctx.record.errorsByClass := by
  cases h with
  | worker _ _ => exact absurd rfl (hnot _ _)
  | wrote hsink => exact ⟨ResultSink.submitted_writerStep hsink, rfl⟩
  | timedOut hsink => exact ⟨ResultSink.submitted_writerTimeout hsink, rfl⟩
  | gathered _ _ => exact ⟨ResultSink.submitted_close _, rfl⟩
  | _ => exact ⟨rfl, rfl⟩

theorem reachable_classes {s : State J.concurrency} (h : Reachable J s) :
    ∀ c ∈ s.ctx.record.errorsByClass.map Prod.fst,
      ∃ e, .error e ∈ s.ctx.sink.submitted ∧ e.failureClass = c := by
  refine h.invariant (I := fun s => ∀ c ∈ s.ctx.record.errorsByClass.map Prod.fst,
    ∃ e, .error e ∈ s.ctx.sink.submitted ∧ e.failureClass = c) ?_ ?_
  · exact fun now wall c hc => by cases hc
  · intro s a s' _ hs ht c hc
    by_cases hworker : ∃ i input, a = .worker i input
    · obtain ⟨i, input, rfl⟩ := hworker
      cases ht with
      | @worker _ _ ctx' ws' e hturn hdoes =>
        rw [hdoes.record] at hc
        rcases settles_keys e.rows hc with hc | ⟨err, herr, hclass⟩
        · obtain ⟨err, herr, hclass⟩ := hs c hc
          exact ⟨err, hdoes.submitted ▸ List.mem_append_left _ herr, hclass⟩
        · exact ⟨err, hdoes.submitted ▸ List.mem_append_right _ herr, hclass⟩
    · obtain ⟨hsubmitted, hclasses⟩ := step_rows ht fun i input hi => hworker ⟨i, input, hi⟩
      rw [hsubmitted]
      exact hs c (hclasses ▸ hc)

/-! ## Where the rows come from -/

/-- Every entry that is under way was in the input. -/
theorem reachable_sources {s : State J.concurrency} (h : Reachable J s) :
    ∀ t ∈ unresolved s, t.entry ∈ J.input.entries := by
  refine h.invariant (I := fun s => ∀ t ∈ unresolved s, t.entry ∈ J.input.entries) ?_ ?_
  · intro now wall t ht
    rw [unresolved_start] at ht
    exact absurd ht (Multiset.notMem_zero t)
  · intro s a s' hreach hs ht t hmem
    cases step_custody ht with
    | settled _ _ hunresolved _ =>
      exact hs t (hunresolved ▸ Multiset.mem_add.mpr (Or.inr hmem))
    | @admitted parsed rest hphase hrest _ _ hunresolved _ =>
      rcases Multiset.mem_cons.mp (hunresolved ▸ hmem) with rfl | hmem
      · have hupcoming := reachable_upcoming hreach (by rw [hphase]; trivial)
        have hread : parsed ∈ s.rest := hrest ▸ List.mem_cons_self
        exact List.mem_of_mem_drop (hupcoming ▸ hread)
      · exact hs t hmem

theorem queued_unresolved {n : ℕ} {s : State n} {t : Ticket} {rest : List Queued}
    (hqueue : s.ctx.queue.items = .ticket t :: rest) : t ∈ unresolved s := by
  rw [unresolved, hqueue, tickets_ticket]
  refine Multiset.mem_add.mpr (Or.inr (Multiset.mem_add.mpr (Or.inl ?_)))
  exact Multiset.mem_coe.mpr List.mem_cons_self

/-- A pause for a reset header follows a 429. -/
def WorkerState.Throttled : WorkerState → Prop
  | .resetWait _ _ f | .resetJitter _ _ f => f.failureClass = .throttled
  | _ => True

theorem loopTurn_throttled {ctx : WorkerContext} {h : InHand} {ws' : WorkerState} {e : Effect}
    (hturn : LoopTurn ctx h ws' e) : ws'.Throttled := by
  cases hturn <;> trivial

theorem retryTurn_throttled {h : InHand} {ws' : WorkerState} {e : Effect}
    (hturn : RetryTurn h ws' e) : ws'.Throttled := by
  cases hturn <;> trivial

theorem turn_throttled {W : WorkerConfig R} {ctx ctx' : WorkerContext} {ws ws' : WorkerState}
    {input : WorkerInput R} {e : Effect} (hturn : Turn W ctx ctx' ws input ws' e)
    (hws : ws.Throttled) : ws'.Throttled := by
  cases hturn with
  | shutdown => trivial
  | passed => trivial
  | taken hloop => exact loopTurn_throttled hloop
  | asked hloop => exact loopTurn_throttled hloop
  | looped hloop => exact loopTurn_throttled hloop
  | waited => trivial
  | granted => trivial
  | replied hcall =>
    cases hcall with
    | succeeded _ _ => trivial
    | raised _ _ _ => trivial
    | fatal _ _ => trivial
    | paused hclass => exact hclass
    | jittered hclass => exact hclass
    | failed _ _ hretry => exact retryTurn_throttled hretry
  | jittered => exact hws
  | resumed hretry => exact retryTurn_throttled hretry

theorem reachable_throttled {s : State J.concurrency} (h : Reachable J s) :
    ∀ i, (s.workers i).Throttled := by
  refine h.invariant (I := fun s => ∀ i, (s.workers i).Throttled) ?_ ?_
  · exact fun now wall i => trivial
  · intro s a s' _ hs ht
    cases ht with
    | @worker i _ _ ws' _ hturn _ =>
      intro j
      by_cases hj : j = i
      · subst hj
        simp only [Function.update_self]
        exact turn_throttled hturn (hs j)
      · simp only [Function.update_of_ne hj]
        exact hs j
    | _ => exact hs

/-! ## What a step explains -/

theorem recount_replies (s s' : State J.concurrency) (a : Action R J.concurrency) (hist : History) :
    hist.replies ⊆ (recount J s a s' hist).replies := by
  cases a with
  | cancel =>
    simp only [recount]
    cases s.phase.stage <;> exact List.Subset.refl _
  | worker i input =>
    cases input with
    | reply r u raises =>
      simp only [recount]
      cases s.workers i with
      | calling h start => exact List.subset_append_left _ _
      | _ => exact List.Subset.refl _
    | _ => exact List.Subset.refl _
  | _ => exact List.Subset.refl _

theorem recount_cancelled {s s' : State J.concurrency} {a : Action R J.concurrency} {hist : History}
    (h : hist.cancelled = true) : (recount J s a s' hist).cancelled = true := by
  cases a with
  | cancel =>
    simp only [recount]
    cases s.phase.stage <;> first | rfl | exact h
  | worker i input =>
    rw [recount_worker_cancelled]
    exact h
  | _ => exact h

/-- What is explained stays explained. -/
theorem History.Explains.later {hist : History} {e : RowError} (h : hist.Explains J e)
    (s s' : State J.concurrency) (a : Action R J.concurrency) :
    (recount J s a s' hist).Explains J e := by
  have hreplies := recount_replies s s' a hist
  unfold History.Explains at h ⊢
  cases hclass : e.failureClass with
  | invalidInput =>
    rw [hclass] at h
    exact h.imp_right fun ⟨p, hp, hstatus⟩ => ⟨p, hreplies hp, hstatus⟩
  | fatalAuth =>
    rw [hclass] at h
    obtain ⟨p, hp, hstatus⟩ := h
    exact ⟨p, hreplies hp, hstatus⟩
  | fatalBilling =>
    rw [hclass] at h
    obtain ⟨p, hp, hstatus⟩ := h
    exact ⟨p, hreplies hp, hstatus⟩
  | cancelled =>
    rw [hclass] at h
    exact recount_cancelled h
  | transientExhausted => trivial
  | success => rw [hclass] at h; exact h
  | throttled => rw [hclass] at h; exact h
  | transient => rw [hclass] at h; exact h

theorem explains_fatal {hist : History} {e : RowError} {p : String × Outcome}
    (hp : p ∈ hist.replies) (hfatal : (classify p.2).1.isFatal = true)
    (hclass : e.failureClass = (classify p.2).1) : hist.Explains J e := by
  have hstatus := (classify_status p.2).2.2 (Or.inr hfatal)
  unfold History.Explains
  rw [hclass]
  cases hc : (classify p.2).1 <;> rw [hc] at hstatus hfatal <;>
    first | exact ⟨p, hp, hstatus⟩ | cases hfatal

theorem explains_refused {hist : History} {e : RowError} (h : hist.Explains J e)
    (hclass : e.failureClass = .fatalAuth) : ∃ p ∈ hist.replies, p.2.HasStatus [401, 403] := by
  unfold History.Explains at h
  rw [hclass] at h
  exact h

theorem explains_exhausted {hist : History} {e : RowError}
    (hclass : e.failureClass = .transientExhausted) : hist.Explains J e := by
  rw [History.Explains, hclass]
  trivial

theorem explains_only {hist : History} {e : RowError} (h : hist.Explains J e) :
    ∀ err, .error err ∈ [Row.error e] → hist.Explains J err := by
  intro err herr
  obtain rfl := Row.error.inj (List.mem_singleton.mp herr)
  exact h

/-- An item that used up its attempts. -/
theorem explains_failed {hist : History} {e : RowError} {outcome : Outcome}
    (hp : (e.itemId, outcome) ∈ hist.replies) (hsuccess : (classify outcome).1 ≠ .success)
    (hfatal : (classify outcome).1.isFatal = false)
    (hclass : e.failureClass = finalClass (classify outcome).1) : hist.Explains J e := by
  obtain ⟨hexhausted, hcancelled, hblamed⟩ := classify_status outcome
  cases hc : (classify outcome).1 with
  | invalidInput =>
    rw [hc] at hclass hblamed
    unfold History.Explains
    rw [hclass]
    exact Or.inr ⟨_, hp, rfl, hblamed (Or.inl rfl)⟩
  | throttled =>
    rw [hc] at hclass
    exact explains_exhausted hclass
  | transient =>
    rw [hc] at hclass
    exact explains_exhausted hclass
  | success => exact absurd hc hsuccess
  | fatalAuth =>
    rw [hc] at hfatal
    cases hfatal
  | fatalBilling =>
    rw [hc] at hfatal
    cases hfatal
  | transientExhausted => exact absurd hc hexhausted
  | cancelled => exact absurd hc hcancelled

theorem recount_calling {s s' : State J.concurrency} {i : Fin J.concurrency} {h : InHand}
    {start u : ℚ} {r : R} {raises : Bool} {hist : History} (hws : s.workers i = .calling h start) :
    (h.item.id, outcomeOf (J.provider.complete r)) ∈
      (recount J s (.worker i (.reply r u raises)) s' hist).replies := by
  simp only [recount, hws, History.reply]
  exact List.mem_append_right _ List.mem_cons_self

/-- Every row of a turn is explained, unless the turn aborts an item without a class. -/
theorem worker_explains (hinput : J.input.Labelled) {s s' : State J.concurrency}
    {i : Fin J.concurrency} {input : WorkerInput R} {hist : History} (h : Happens J s hist)
    (hstep : step J s (.worker i input) = some s') (hclassed : ¬ Unclassed J s (.worker i input)) :
    ∃ rows, s'.ctx.sink.submitted = s.ctx.sink.submitted ++ rows ∧
      ∀ e, .error e ∈ rows → (recount J s (.worker i input) s' hist).Explains J e := by
  obtain ⟨⟨ctx', ws'⟩, hworker, rfl⟩ := Option.map_eq_some_iff.mp hstep
  obtain ⟨rows, boxes, hemission, hleaves⟩ := workerStep_emission hworker
  refine ⟨rows, hleaves.submitted, ?_⟩
  have htell := happens_boxesTell h
  have hthrottled := reachable_throttled h.reachable i
  have hcancel : s.ctx.cancelEvent = true → hist.cancelled = true := by
    obtain ⟨e, hturn, -⟩ := workerStep_turn hworker
    have hopen := stage_of_not_drained (worker_not_drained h.reachable hturn)
    exact fun hc => (happens_cancelled h hopen).symm.trans hc
  generalize hws : s.workers i = ws at hemission hthrottled
  cases hemission with
  | quiet _ => exact fun err herr => absurd herr List.not_mem_nil
  | @passed seq e rest hqueue =>
    have hsource := reachable_sources h.reachable _ (queued_unresolved hqueue)
    refine explains_only ?_
    unfold History.Explains
    rw [hinput e hsource]
    exact Or.inl hsource
  | cancelled _ hc hclass =>
    refine explains_only ?_
    unfold History.Explains
    rw [hclass]
    exact recount_cancelled (hcancel hc)
  | aborted htop hc habort hclass =>
    have hsome : s.ctx.abortClass ≠ [] := by
      rintro hnone
      exact hclassed ⟨i, input, rfl, hws ▸ htop, hc, habort, hnone⟩
    obtain ⟨c, classes, hclasses⟩ := List.exists_cons_of_ne_nil hsome
    have hboxes : s.ctx.abortClass = hist.fatalClasses := htell.failureClass
    have hfatal : c ∈ hist.fatalClasses := hboxes ▸ hclasses ▸ List.mem_cons_self
    obtain ⟨hmem, hisFatal⟩ := List.mem_filter.mp hfatal
    obtain ⟨p, hp, rfl⟩ := List.mem_map.mp hmem
    rw [hclasses] at hclass
    exact explains_only (explains_fatal (recount_replies _ _ _ _ hp) hisFatal hclass)
  | succeeded _ =>
    intro err herr
    cases List.mem_singleton.mp herr
  | raised _ herror =>
    intro err herr
    rcases List.mem_cons.mp herr with herr | herr
    · cases herr
    · exact explains_only (explains_exhausted herror) err herr
  | fatal hfatal hclass => exact explains_only (explains_fatal (recount_calling hws) hfatal hclass)
  | failed hsuccess hfatal hid hclass =>
    exact explains_only (explains_failed (hid ▸ recount_calling hws) hsuccess hfatal hclass)
  | gaveUp hclass =>
    have hpause : Failure.failureClass _ = .throttled := hthrottled
    rw [hpause] at hclass
    exact explains_only (explains_exhausted hclass)
  | exhausted _ hclass => exact explains_only (explains_exhausted hclass)

theorem step_tellTrue (hinput : J.input.Labelled) {s s' : State J.concurrency}
    {a : Action R J.concurrency} {hist : History} (h : Happens J s hist) (hs : TellTrue J s hist)
    (hstep : step J s a = some s') (hclassed : ¬ Unclassed J s a) :
    TellTrue J s' (recount J s a s' hist) := by
  refine ⟨fun e he => ?_, reachable_classes (h.reachable.step hstep)⟩
  by_cases hworker : ∃ i input, a = .worker i input
  · obtain ⟨i, input, rfl⟩ := hworker
    obtain ⟨rows, hsubmitted, hrows⟩ := worker_explains hinput h hstep hclassed
    rcases List.mem_append.mp (hsubmitted ▸ he) with he | he
    · exact (hs.rows e he).later s s' _
    · exact hrows e he
  · have hsubmitted := (step_rows (step_turn hstep) fun i input hi => hworker ⟨i, input, hi⟩).1
    exact (hs.rows e (hsubmitted ▸ he)).later s s' a

/-! ## The default class -/

/-- At the top of the loop of an aborted job the item fails, for want of a class with that
of a refused key. -/
theorem loopTop_unclassed {ctx : WorkerContext} (h : InHand) (hcancel : ctx.cancelEvent = false)
    (habort : ctx.abortEvent = true) (hnone : ctx.abortClass = []) :
    ∃ e : RowError, e.failureClass = .fatalAuth ∧
      (loopTop ctx h).1.sink.submitted = ctx.sink.submitted ++ [.error e] := by
  have hbranch := loopTop_branch ctx h
  generalize loopTop ctx h = next at hbranch ⊢
  cases hbranch with
  | cancelled hstop => exact absurd (hcancel.symm.trans hstop) Bool.false_ne_true
  | aborted _ _ =>
    rw [hnone]
    exact ⟨_, rfl, ResultSink.submitted_submit _ _⟩
  | refused _ hrun _ => exact absurd (hrun.symm.trans habort) Bool.false_ne_true
  | allowed _ hrun _ => exact absurd (hrun.symm.trans habort) Bool.false_ne_true

theorem unclassed_row {s s' : State J.concurrency} {a : Action R J.concurrency}
    (hstep : step J s a = some s') (hunclassed : Unclassed J s a) :
    ∃ e : RowError, e.failureClass = .fatalAuth ∧ .error e ∈ s'.ctx.sink.submitted := by
  obtain ⟨i, input, rfl, htop, hcancel, habort, hnone⟩ := hunclassed
  obtain ⟨next, hworker, rfl⟩ := Option.map_eq_some_iff.mp hstep
  have hrow : ∀ (ctx : WorkerContext) (h : InHand), ctx.cancelEvent = false →
      ctx.abortEvent = true → ctx.abortClass = [] →
      ∃ e : RowError, e.failureClass = .fatalAuth ∧
        .error e ∈ (loopTop ctx h).1.sink.submitted := by
    intro ctx h hcancel habort hnone
    obtain ⟨e, hclass, hsubmitted⟩ := loopTop_unclassed h hcancel habort hnone
    exact ⟨e, hclass, hsubmitted ▸ List.mem_append_right _ List.mem_cons_self⟩
  have hbranch := workerStep_branch hworker
  generalize s.workers i = ws at htop hbranch
  cases hbranch with
  | took hget =>
    cases htop with
    | taken hqueue =>
      obtain ⟨hitems, -⟩ := BoundedQueue.get_some hget
      obtain rfl := (List.cons.inj (hqueue.symm.trans hitems)).1
      exact hrow (s.ctx.withQueue _) _ hcancel habort hnone
  | asked _ => exact hrow s.ctx _ hcancel habort hnone
  | looped _ => exact hrow s.ctx _ hcancel habort hnone
  | _ => cases htop

theorem classify_refused {o : Outcome} (h : o.HasStatus [401, 403]) :
    (classify o).1 = .fatalAuth := by
  obtain ⟨code, hcode, hstatus⟩ := h
  cases o with
  | transportError => cases hstatus
  | response r =>
    have hr : r.statusCode = code := Option.some.inj hstatus
    rcases List.mem_pair.mp hcode with rfl | rfl <;> simp [classify, hr, statusTable, Dict.get?]

/-- No answer was fatal, so nothing explains the row. -/
theorem unclassed_untrue {s s' : State J.concurrency} {a : Action R J.concurrency} {hist : History}
    (h : Happens J s hist) (hstep : step J s a = some s') (hunclassed : Unclassed J s a) :
    ¬ TellTrue J s' (recount J s a s' hist) := by
  intro htrue
  obtain ⟨e, hclass, hmem⟩ := unclassed_row hstep hunclassed
  obtain ⟨p, hp, hstatus⟩ := explains_refused (htrue.rows e hmem) hclass
  obtain ⟨i, input, rfl, htop, -, -, hnone⟩ := hunclassed
  have hreplies : (recount J s (.worker i input) s' hist).replies = hist.replies := by
    generalize s.workers i = ws at htop
    cases htop <;> rfl
  have hrefused : (classify p.2).1.isFatal = true := by
    rw [classify_refused hstatus]
    rfl
  have hfatal : (classify p.2).1 ∈ hist.fatalClasses :=
    List.mem_filter.mpr ⟨List.mem_map.mpr ⟨p, hreplies ▸ hp, rfl⟩, hrefused⟩
  have hempty : hist.fatalClasses = [] := (happens_boxesTell h).failureClass.symm.trans hnone
  rw [hempty] at hfatal
  cases hfatal

/-! ## The law -/

/-- The classes tell what happened in every state of a run exactly if no turn of it resolves
an item of an aborted job for which no answer was fatal. -/
theorem classes_tell_true (hinput : J.input.Labelled) (now wall : ℚ)
    (actions : List (Action R J.concurrency)) :
    Runs.Along (recountedStep J) (StepTells J) (J.start now wall, {}) actions ↔
      Runs.Along (recountedStep J) (StepClassed J) (J.start now wall, {}) actions := by
  have hstart : Happens J (J.start now wall) {} := ⟨now, wall, [], rfl⟩
  have hrows : ∀ e, .error e ∈ (J.start now wall).ctx.sink.submitted → History.Explains J {} e :=
    fun e he => absurd he List.not_mem_nil
  constructor
  · refine Runs.Along.of_invariant (I := fun p : State J.concurrency × History => Happens J p.1 p.2)
      (fun p a q hp _ hq => ?_) (fun p a hp htrue q hq hunclassed => ?_) hstart
    · obtain ⟨hturn, hhist⟩ := Runs.withHistory_some.mp hq
      exact hhist ▸ hp.step hturn
    · obtain ⟨hturn, hhist⟩ := Runs.withHistory_some.mp hq
      exact unclassed_untrue hp hturn hunclassed (hhist ▸ htrue q hq)
  · refine Runs.Along.of_invariant
      (I := fun p : State J.concurrency × History => Happens J p.1 p.2 ∧ TellTrue J p.1 p.2)
      (fun p a q hp hclassed hq => ?_) (fun p a hp hclassed q hq => ?_)
      ⟨hstart, hrows, reachable_classes hstart.reachable⟩
    · obtain ⟨hturn, hhist⟩ := Runs.withHistory_some.mp hq
      rw [hhist]
      exact ⟨hp.1.step hturn, step_tellTrue hinput hp.1 hp.2 hturn (hclassed q hq)⟩
    · obtain ⟨hturn, hhist⟩ := Runs.withHistory_some.mp hq
      rw [hhist]
      exact step_tellTrue hinput hp.1 hp.2 hturn (hclassed q hq)

/-- 49 malformed rows, an answer worth two dollars and one more prompt. -/
def spent : JobRunner CallResult where
  provider := scripted (1 / 5) (1 / 5)
  config := { concurrency := some 1 }
  input :=
    { entries :=
        List.replicate 49 (.error ⟨"bad", .invalidInput, .ingest "malformed JSON line", 1, none⟩) ++
          [.item ⟨"a", "hello"⟩, .item ⟨"b", "hello"⟩] }

/-- The answer trips the spend guard while the last prompt is queued. -/
def spentRun : List (Action CallResult 1) :=
  .runner false :: readAndTake 1 49 ++ List.replicate 3 (.runner false) ++ [takeOne] ++
  List.replicate 2 (.runner false) ++
  [.nth 0 (.reply (.returned { statusCode := 200, text := "hi", inputTokens := 10000000 }) 0 false),
    takeOne] ++
  List.replicate 4 (.runner false) ++ [takeOne, .runner false] ++ List.replicate 52 .writer ++
  List.replicate 3 (.runner false)

def spentEnd : State spent.concurrency × History :=
  (Runs.exec (recountedStep spent) (spent.start 0 0, {}) spentRun).get (by decide +kernel)

theorem spent_labelled : spent.input.Labelled := by
  intro e he
  rcases List.mem_append.mp he with he | he
  · obtain rfl := Entry.error.inj (List.eq_of_mem_replicate he)
    rfl
  · rcases List.mem_pair.mp he with he | he <;> cases he

def spentRow : RowError := ⟨"b", .fatalAuth, .abort (.spendGuard 2 (51 / 25) (1 / 4)), 1, none⟩

/-- The finished job of `spent` has a row of class `fatal_auth`; its one answer was a 200. -/
theorem classes_mislead : spentEnd.1.phase = .finished none ∧
    ¬ TellTrue spent spentEnd.1 spentEnd.2 := by
  have hfinished : spentEnd.1.phase = .finished none := by decide +kernel
  refine ⟨hfinished, fun htrue => ?_⟩
  have hmem : .error spentRow ∈ spentEnd.1.ctx.sink.submitted := by decide +kernel
  have hexplained := htrue.rows spentRow hmem
  obtain ⟨p, hp, code, hcode, hstatus⟩ := explains_refused hexplained rfl
  have hreplies : ∀ p ∈ spentEnd.2.replies, p.2.httpStatus = some 200 := by decide +kernel
  rw [hreplies p hp] at hstatus
  obtain rfl := Option.some.inj hstatus
  exact absurd hcode (by decide)

theorem classes_tell_true_spent :
    Runs.Along (recountedStep spent) (StepTells spent) (spent.start 0 0, {}) spentRun ↔
      Runs.Along (recountedStep spent) (StepClassed spent) (spent.start 0 0, {}) spentRun :=
  classes_tell_true spent_labelled 0 0 spentRun

end BatchEngine.Core
