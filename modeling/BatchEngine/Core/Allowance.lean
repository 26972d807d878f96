import BatchEngine.Core.SafetyNet
import BatchEngine.Core.Timeline

/-!
# How many attempts an item gets

`process_item` counts the attempts of an item and compares the count with the cap of the
last outcome, whatever the outcomes before it were. An item with outcomes of one kind gets
the attempts of that kind; with a mixture it may get fewer.
-/

set_option autoImplicit false

namespace BatchEngine.Core

open BatchEngine.Providers

variable {R : Type*} {W : WorkerConfig R}

def FailureClass.isRetryable (c : FailureClass) : Bool := c = .throttled ∨ c = .transient

/-- No cancel, no abort, and the breaker lets the item through. -/
structure Unhindered (ctx : WorkerContext) : Prop where
  cancelEvent : ctx.cancelEvent = false
  abortEvent : ctx.abortEvent = false
  breaker : (ctx.circuitBreaker.allowRequest ctx.now).1 = true

/-- An error row with this message is among the rows. -/
def Books.Reports (books : Books) (message : Message) : Prop :=
  ∃ e : RowError, .error e ∈ books.rows ∧ e.message = message

/-- The outcomes of the calls of a drive. -/
def answersOf (W : WorkerConfig R) (wakes : List (Wake R)) : List Outcome :=
  wakes.filterMap fun w => w.input.answer W

/-! ## The law over the outcomes -/

/-- None of the outcomes has used up the attempts: number `i` came before its own cap. -/
def Under (outcomes : List Outcome) : Prop :=
  ∀ i o, outcomes[i]? = some o → i + 1 < (classify o).2

theorem under_nil : Under [] := fun i o h => by cases h

theorem Under.snoc {outcomes : List Outcome} {o : Outcome} (h : Under outcomes)
    (ho : outcomes.length + 1 < (classify o).2) : Under (outcomes ++ [o]) := by
  intro i o' hi
  rcases lt_or_ge i outcomes.length with hlt | hge
  · rw [List.getElem?_append_left hlt] at hi
    exact h i o' hi
  · rw [List.getElem?_append_right hge] at hi
    obtain ⟨hzero, hlast⟩ := List.getElem?_eq_some_iff.mp hi
    have hindex : i = outcomes.length := by
      rw [List.length_singleton] at hzero
      omega
    obtain rfl : o = o' := by simpa using hlast
    rw [hindex]
    exact ho

/-- An outcome of the kind of `o` comes early if it has not used up the attempts. So there
are as many of them as the cap says exactly if they are all that comes early. -/
theorem cap_le_count_iff {outcomes : List Outcome} {o : Outcome} (hunder : Under outcomes)
    (hcap : (classify o).2 ≤ outcomes.length + 1) :
    (classify o).2 ≤ ((outcomes ++ [o]).map classify).count (classify o) ↔
      ∀ o' ∈ (outcomes ++ [o]).take ((classify o).2 - 1), classify o' = classify o := by
  have hearly : (classify o).2 - 1 ≤ outcomes.length := by omega
  have hlate : ((outcomes.drop ((classify o).2 - 1)).map classify).count (classify o) = 0 := by
    refine List.count_eq_zero_of_not_mem fun hmem => ?_
    obtain ⟨o', ho', hsame⟩ := List.mem_map.mp hmem
    obtain ⟨i, hi⟩ := List.getElem?_of_mem ho'
    rw [List.getElem?_drop] at hi
    have hbefore := hunder _ o' hi
    rw [hsame] at hbefore
    omega
  have hcount : ((outcomes ++ [o]).map classify).count (classify o) =
      ((outcomes.take ((classify o).2 - 1)).map classify).count (classify o) + 1 := by
    rw [List.map_append, List.count_append, List.map_singleton, List.count_singleton_self]
    conv_lhs => rw [← List.take_append_drop ((classify o).2 - 1) outcomes]
    rw [List.map_append, List.count_append, hlate, add_zero]
  have hlength : ((outcomes.take ((classify o).2 - 1)).map classify).length =
      (classify o).2 - 1 := by
    rw [List.length_map, List.length_take, Nat.min_eq_left hearly]
  have hmost := List.count_le_length (a := classify o)
    (l := (outcomes.take ((classify o).2 - 1)).map classify)
  rw [hcount, List.take_append_of_le_length hearly]
  calc (classify o).2 ≤ _ + 1
      ↔ ((outcomes.take ((classify o).2 - 1)).map classify).count (classify o) =
          ((outcomes.take ((classify o).2 - 1)).map classify).length := by omega
    _ ↔ ∀ k ∈ (outcomes.take ((classify o).2 - 1)).map classify, classify o = k :=
        List.count_eq_length
    _ ↔ _ := by
        rw [List.forall_mem_map]
        exact forall₂_congr fun _ _ => eq_comm

/-! ## The segments -/

/-- An item that nothing hinders goes from the top of the loop to its next attempt. -/
theorem loopTop_free {ctx : WorkerContext} (hfree : Unhindered ctx) (h : InHand) :
    loopTop ctx h = acquirePass (ctx.withBreaker (ctx.circuitBreaker.allowRequest ctx.now).2)
      { h with attempt := h.attempt + 1 } := by
  have hbranch := loopTop_branch ctx h
  generalize loopTop ctx h = next at hbranch ⊢
  cases hbranch with
  | cancelled hcancel => exact absurd (hfree.cancelEvent.symm.trans hcancel) Bool.false_ne_true
  | aborted _ habort => exact absurd (hfree.abortEvent.symm.trans habort) Bool.false_ne_true
  | refused _ _ hask =>
    rw [hfree.breaker] at hask
    cases hask
  | allowed _ _ _ => rfl

/-! ## The attempts of an item -/

/-- Where a worker is with its item after these outcomes, and what rows it has submitted. -/
inductive Trying : List Outcome → WorkerState → List Row → Prop
  | waiting {outcomes : List Outcome} {h : InHand} {wake : ℚ}
      (hattempt : h.attempt = outcomes.length + 1) (hunder : Under outcomes) :
      Trying outcomes (.acquiring h wake) []
  | calling {outcomes : List Outcome} {h : InHand} {start : ℚ}
      (hattempt : h.attempt = outcomes.length + 1) (hunder : Under outcomes) :
      Trying outcomes (.calling h start) []
  | pausing {outcomes : List Outcome} {o : Outcome} {h : InHand} {wake : Option ℚ}
      (hattempt : h.attempt = outcomes.length + 1) (hunder : Under outcomes)
      (hclass : (classify o).1 = .throttled) :
      Trying (outcomes ++ [o]) (.resetWait h wake (.of o)) []
  | jittering {outcomes : List Outcome} {o : Outcome} {h : InHand} {wake : ℚ}
      (hattempt : h.attempt = outcomes.length + 1) (hunder : Under outcomes)
      (hclass : (classify o).1 = .throttled) :
      Trying (outcomes ++ [o]) (.resetJitter h wake (.of o)) []
  | backing {outcomes : List Outcome} {h : InHand} {wake : ℚ}
      (hattempt : h.attempt = outcomes.length) (hunder : Under outcomes) :
      Trying outcomes (.backoff h wake) []
  | decided {outcomes : List Outcome} {o : Outcome} {rows : List Row}
      (hclass : (classify o).1.isRetryable = false) : Trying (outcomes ++ [o]) .idle rows
  | exhausted {outcomes : List Outcome} {o : Outcome} {e : RowError} (hunder : Under outcomes)
      (hclass : (classify o).1.isRetryable = true) (hcap : (classify o).2 ≤ outcomes.length + 1)
      (hmessage : e.message = .maxAttemptsExhausted) : Trying (outcomes ++ [o]) .idle [.error e]
  | refused {outcomes : List Outcome} {e : RowError}
      (hmessage : e.message = .retryBudgetExhausted) : Trying outcomes .idle [.error e]

/-- The worker has come to where it is with these rows. -/
def Comes (ctx : WorkerContext) (outcomes : List Outcome) (next : WorkerContext × WorkerState) :
    Prop :=
  ∃ rows, next.1.sink.submitted = ctx.sink.submitted ++ rows ∧ Trying outcomes next.2 rows

theorem comes_silent {ctx ctx' : WorkerContext} {outcomes : List Outcome} {ws' : WorkerState}
    (hsubmitted : ctx'.sink.submitted = ctx.sink.submitted) (h : Trying outcomes ws' []) :
    Comes ctx outcomes (ctx', ws') :=
  ⟨[], hsubmitted.trans (List.append_nil _).symm, h⟩

theorem comes_acquirePass (ctx : WorkerContext) {h : InHand} {outcomes : List Outcome}
    (hattempt : h.attempt = outcomes.length + 1) (hunder : Under outcomes) :
    Comes ctx outcomes (acquirePass ctx h) := by
  have hbranch := acquirePass_branch ctx h
  generalize acquirePass ctx h = next at hbranch ⊢
  cases hbranch with
  | granted _ => exact comes_silent rfl (.calling hattempt hunder)
  | waits _ => exact comes_silent rfl (.waiting hattempt hunder)

theorem comes_loopTop {ctx : WorkerContext} (hfree : Unhindered ctx) {h : InHand}
    {outcomes : List Outcome} (hattempt : h.attempt = outcomes.length) (hunder : Under outcomes) :
    Comes ctx outcomes (loopTop ctx h) := by
  rw [loopTop_free hfree]
  exact comes_acquirePass (ctx.withBreaker (ctx.circuitBreaker.allowRequest ctx.now).2)
    (congrArg (· + 1) hattempt) hunder

theorem comes_retryOrFail (W : WorkerConfig R) (ctx : WorkerContext) {h : InHand}
    {outcomes : List Outcome} (hattempt : h.attempt = outcomes.length + 1) (hunder : Under outcomes)
    (o : Outcome) (u : ℚ) : Comes ctx (outcomes ++ [o]) (retryOrFail W ctx h (.of o) u) := by
  have hbranch := retryOrFail_branch W ctx h (.of o) u
  generalize retryOrFail W ctx h (.of o) u = next at hbranch ⊢
  cases hbranch with
  | gaveUp hcap =>
    refine ⟨_, (does_emitError_finish ctx _ _ _ _ _).submitted, ?_⟩
    cases hclass : (classify o).1.isRetryable with
    | true => exact .exhausted hunder hclass (hattempt ▸ hcap) rfl
    | false => exact .decided hclass
  | refused _ _ => exact ⟨_, (does_emitError_finish ctx _ _ _ _ _).submitted, .refused rfl⟩
  | retried hcap _ =>
    refine comes_silent rfl (.backing ?_ (hunder.snoc (hattempt ▸ hcap)))
    rw [hattempt, List.length_append, List.length_singleton]

theorem comes_afterFailure (W : WorkerConfig R) (ctx : WorkerContext) {h : InHand}
    {outcomes : List Outcome} (hattempt : h.attempt = outcomes.length + 1) (hunder : Under outcomes)
    (o : Outcome) (u : ℚ) : Comes ctx (outcomes ++ [o]) (afterFailure W ctx h o (.of o) u) := by
  have hbranch := afterFailure_branch W ctx h o (.of o) u
  generalize afterFailure W ctx h o (.of o) u = next at hbranch ⊢
  cases hbranch with
  | fatal hfatal =>
    change (classify o).1.isFatal = true at hfatal
    refine ⟨_, ((does_abort ctx (.of o)).trans (does_emitError_finish _ _ _ _ _ _)).submitted,
      .decided ?_⟩
    cases hclass : (classify o).1 with
    | fatalAuth => rfl
    | fatalBilling => rfl
    | _ => rw [hclass] at hfatal; cases hfatal
  | jittered hthrottled _ _ => exact comes_silent rfl (.jittering hattempt hunder hthrottled)
  | hung hthrottled _ _ => exact comes_silent rfl (.pausing hattempt hunder hthrottled)
  | paused hthrottled _ _ => exact comes_silent rfl (.pausing hattempt hunder hthrottled)
  | throttled _ _ =>
    exact comes_retryOrFail W (ctx.withController (ctx.controller.recordThrottle ctx.now))
      hattempt hunder o u
  | failed _ _ => exact comes_retryOrFail W ctx hattempt hunder o u

theorem comes_callBranch {W : WorkerConfig R} {ctx : WorkerContext} {h : InHand}
    {outcomes : List Outcome} (hattempt : h.attempt = outcomes.length + 1) (hunder : Under outcomes)
    {start u : ℚ} {r : R} {raises : Bool} {next : Next}
    (hcall : CallBranch W ctx h start r u raises next) :
    Comes ctx (outcomes ++ [outcomeOf (W.provider.complete r)]) next := by
  obtain ⟨e, -, hdoes⟩ := callBranch_turn hcall
  have hsubmitted := hdoes.submitted
  cases hcall with
  | succeeded _ hclass => exact ⟨e.rows, hsubmitted, .decided (by rw [hclass]; rfl)⟩
  | raised _ hclass _ => exact ⟨e.rows, hsubmitted, .decided (by rw [hclass]; rfl)⟩
  | failed _ => exact comes_afterFailure W (recordOutcome ctx _) hattempt hunder _ u

theorem answer_wake (W : WorkerConfig R) (u : ℚ) :
    (WorkerInput.wake u : WorkerInput R).answer W = none := rfl

/-- A turn of the worker with an item in hand. -/
theorem comes_workerStep {ctx : WorkerContext} (hfree : Unhindered ctx) {outcomes : List Outcome}
    {ws : WorkerState} (hs : Trying outcomes ws []) (hhand : ws.hand ≠ none)
    {input : WorkerInput R} {next : WorkerContext × WorkerState}
    (hstep : workerStep W ctx ws input = some next) :
    Comes ctx (outcomes ++ (input.answer W).toList) next := by
  cases workerStep_branch hstep with
  | took _ => exact absurd rfl hhand
  | asked _ => cases hs
  | acquired _ =>
    rw [answer_wake, Option.toList_none, List.append_nil]
    cases hs with
    | waiting hattempt hunder => exact comes_acquirePass ctx hattempt hunder
  | replied _ hcall =>
    cases hs with
    | calling hattempt hunder => exact comes_callBranch hattempt hunder hcall
  | jittered _ _ =>
    rw [answer_wake, Option.toList_none, List.append_nil]
    cases hs with
    | pausing hattempt hunder hclass =>
      exact comes_silent rfl (.jittering hattempt hunder hclass)
  | resumed _ _ =>
    rw [answer_wake, Option.toList_none, List.append_nil]
    cases hs with
    | jittering hattempt hunder _ => exact comes_retryOrFail W ctx hattempt hunder _ _
  | looped _ =>
    rw [answer_wake, Option.toList_none, List.append_nil]
    cases hs with
    | backing hattempt hunder => exact comes_loopTop hfree hattempt hunder

/-! ## The drive of an item -/

/-- The item is in hand and nothing has been submitted, or the worker is idle. -/
theorem Trying.handOrIdle {outcomes : List Outcome} {ws : WorkerState} {rows : List Row}
    (h : Trying outcomes ws rows) : (ws.hand ≠ none ∧ rows = []) ∨ ws = .idle := by
  cases h with
  | decided _ => exact Or.inr rfl
  | exhausted _ _ _ _ => exact Or.inr rfl
  | refused _ => exact Or.inr rfl
  | _ => exact Or.inl ⟨Option.some_ne_none _, rfl⟩

theorem answersOf_cons (w : Wake R) (wakes : List (Wake R)) :
    answersOf W (w :: wakes) = (w.input.answer W).toList ++ answersOf W wakes := by
  unfold answersOf
  rw [List.filterMap_cons]
  cases w.input.answer W <;> rfl

/-- Once the worker is idle the drive of its item is over. -/
theorem drive_idle {wakes : List (Wake R)} {ws : WorkerState} {books books' : Books}
    (hinputs : ∀ w ∈ wakes, w.input ≠ .take)
    (h : Runs.exec (driveStep W) (.idle, books) wakes = some (ws, books')) :
    wakes = [] ∧ ws = .idle ∧ books' = books := by
  cases wakes with
  | nil =>
    obtain ⟨rfl, rfl⟩ := Prod.mk.inj (Option.some.inj h)
    exact ⟨rfl, rfl, rfl⟩
  | cons w wakes =>
    obtain ⟨q, hfirst, -⟩ := Runs.exec_cons_iff.mp h
    exact absurd hfirst (idle_stops rfl (hinputs w List.mem_cons_self))

/-- A turn comes to where the drive goes on from. -/
theorem drive_of_comes {outcomes : List Outcome} {wakes : List (Wake R)}
    {ctx : WorkerContext} {next : WorkerContext × WorkerState} {ws : WorkerState}
    {books books' : Books} (hcomes : Comes ctx outcomes next) (hrows : books.rows = [])
    (hinputs : ∀ w ∈ wakes, w.input ≠ .take)
    (hdrive : Runs.exec (driveStep W) (next.2, books.add (.between ctx next.1)) wakes =
      some (ws, books'))
    (hrest : next.2.hand ≠ none → Trying outcomes next.2 [] →
      (books.add (.between ctx next.1)).rows = [] →
        Trying (outcomes ++ answersOf W wakes) ws books'.rows) :
    Trying (outcomes ++ answersOf W wakes) ws books'.rows := by
  obtain ⟨rows, hsubmitted, htrying⟩ := hcomes
  have hbetween : (books.add (.between ctx next.1)).rows = rows := by
    show books.rows ++ next.1.sink.submitted.drop ctx.sink.submitted.length = rows
    rw [hrows, hsubmitted, List.drop_left, List.nil_append]
  rcases htrying.handOrIdle with ⟨hhand, rfl⟩ | hidle
  · exact hrest hhand htrying hbetween
  · rw [show next.2 = .idle from hidle] at hdrive
    obtain ⟨rfl, rfl, rfl⟩ := drive_idle hinputs hdrive
    rw [answersOf, List.filterMap_nil, List.append_nil, hbetween, ← hidle]
    exact htrying

theorem drive_trying {wakes : List (Wake R)} : ∀ {outcomes : List Outcome} {ws ws' : WorkerState}
    {books books' : Books}, ws.hand ≠ none → Trying outcomes ws [] → books.rows = [] →
      (∀ w ∈ wakes, w.input ≠ .take) → (∀ w ∈ wakes, Unhindered w.ctx) →
        Runs.exec (driveStep W) (ws, books) wakes = some (ws', books') →
          Trying (outcomes ++ answersOf W wakes) ws' books'.rows := by
  induction wakes with
  | nil =>
    intro outcomes ws ws' books books' _ hs hrows _ _ h
    obtain ⟨rfl, rfl⟩ := Prod.mk.inj (Option.some.inj h)
    rw [answersOf, List.filterMap_nil, List.append_nil, hrows]
    exact hs
  | cons w wakes ih =>
    intro outcomes ws ws' books books' hhand hs hrows hinputs hfree h
    obtain ⟨-, hinputs⟩ := List.forall_mem_cons.mp hinputs
    obtain ⟨hnow, hfree⟩ := List.forall_mem_cons.mp hfree
    obtain ⟨q, hfirst, hdrive⟩ := Runs.exec_cons_iff.mp h
    obtain ⟨next, hstep, rfl⟩ := Option.map_eq_some_iff.mp hfirst
    rw [answersOf_cons, ← List.append_assoc]
    exact drive_of_comes (comes_workerStep hnow hs hhand hstep) hrows hinputs hdrive
      fun hhand' hs' hrows' => ih hhand' hs' hrows' hinputs hfree hdrive

/-- The first turn takes the item and asks for its first call. -/
theorem comes_take {ctx : WorkerContext} (hfree : Unhindered ctx) {seq : ℕ} {p : PromptItem}
    {tail : List Queued} (hqueue : ctx.queue.items = .ticket ⟨seq, .item p⟩ :: tail)
    {input : WorkerInput R} {next : WorkerContext × WorkerState}
    (hstep : workerStep W ctx .idle input = some next) :
    input.answer W = none ∧ Comes ctx [] next := by
  cases input with
  | take =>
    refine ⟨rfl, ?_⟩
    obtain ⟨⟨x, q⟩, hget, rfl⟩ := Option.map_eq_some_iff.mp hstep
    rw [BoundedQueue.get, hqueue] at hget
    obtain ⟨rfl, rfl⟩ := Prod.mk.inj (Option.some.inj hget)
    have hfree' : Unhindered (ctx.withQueue { ctx.queue with items := tail }) :=
      ⟨hfree.cancelEvent, hfree.abortEvent, hfree.breaker⟩
    exact comes_loopTop hfree' (h := ⟨seq, p, 0⟩) rfl under_nil
  | wake u => cases hstep
  | reply r u raises => cases hstep

/-- What a drive of an unhindered item has come to. -/
theorem ItemDrive.trying {p : PromptItem} {wakes : List (Wake R)} {ws : WorkerState}
    {books : Books} (h : ItemDrive W p wakes ws books) (hfree : ∀ w ∈ wakes, Unhindered w.ctx) :
    Trying (answersOf W wakes) ws books.rows := by
  obtain ⟨first, rest, seq, tail, rfl, hqueue, hinputs⟩ := h.taken
  obtain ⟨hnow, hfree⟩ := List.forall_mem_cons.mp hfree
  obtain ⟨q, hfirst, hdrive⟩ := Runs.exec_cons_iff.mp h.driven
  obtain ⟨next, hstep, rfl⟩ := Option.map_eq_some_iff.mp hfirst
  obtain ⟨hanswer, hcomes⟩ := comes_take hnow hqueue hstep
  rw [answersOf_cons, hanswer, Option.toList_none]
  exact drive_of_comes hcomes rfl hinputs hdrive
    fun hhand hs hrows => drive_trying hhand hs hrows hinputs hfree hdrive

/-! ## The law -/

/-- An item is given up at a retryable outcome only once it has had as many of that kind as the
kind is allowed. -/
def OwnAllowance (answers : List Outcome) (books : Books) : Prop :=
  ∀ o, answers.getLast? = some o → (classify o).1.isRetryable = true →
    books.Reports .maxAttemptsExhausted → (classify o).2 ≤ (answers.map classify).count (classify o)

/-- If the last outcome comes when its kind is out of attempts, the calls before that were all
of its kind. -/
def StartsAlike (answers : List Outcome) : Prop :=
  ∀ o, answers.getLast? = some o → (classify o).1.isRetryable = true →
    (classify o).2 ≤ answers.length →
      ∀ o' ∈ answers.take ((classify o).2 - 1), classify o' = classify o

/-- An item that nothing else stops is not given up before it is let go, and gets the attempts
of the kind it is given up at exactly if its outcomes start alike. -/
theorem own_allowance_iff {p : PromptItem} {wakes : List (Wake R)} {ws : WorkerState}
    {books : Books} (h : ItemDrive W p wakes ws books) (hfree : ∀ w ∈ wakes, Unhindered w.ctx)
    (hbudget : ¬ books.Reports .retryBudgetExhausted) :
    (ws.hand ≠ none → OwnAllowance (answersOf W wakes) books) ∧
      (ws.hand = none →
        (OwnAllowance (answersOf W wakes) books ↔ StartsAlike (answersOf W wakes))) := by
  have htrying := h.trying hfree
  generalize answersOf W wakes = answers at htrying ⊢
  refine ⟨fun hhand => ?_, fun hover => ?_⟩
  · rintro o _ _ ⟨e, he, -⟩
    rcases htrying.handOrIdle with ⟨-, hnone⟩ | hidle
    · rw [hnone] at he
      exact absurd he List.not_mem_nil
    · rw [hidle] at hhand
      exact absurd rfl hhand
  generalize hrows : books.rows = rows at htrying
  cases htrying with
  | @decided outcomes o _ hclass =>
    have hnot : ∀ o', (outcomes ++ [o]).getLast? = some o' →
        (classify o').1.isRetryable = true → False := by
      intro o' hlast hretryable
      rw [List.getLast?_concat] at hlast
      obtain rfl := Option.some.inj hlast
      rw [hclass] at hretryable
      cases hretryable
    exact iff_of_true (fun o' hlast hr => absurd hr (hnot o' hlast))
      fun o' hlast hr => absurd hr (hnot o' hlast)
  | @exhausted outcomes o e hunder hclass hcap hmessage =>
    have hrow : .error e ∈ books.rows := by
      rw [hrows]
      exact List.mem_singleton_self _
    have hgiven : books.Reports .maxAttemptsExhausted := ⟨e, hrow, hmessage⟩
    have hlength : (classify o).2 ≤ (outcomes ++ [o]).length := by
      rwa [List.length_append, List.length_singleton]
    have hlaw := cap_le_count_iff hunder hcap
    have hlast : (outcomes ++ [o]).getLast? = some o := List.getLast?_concat
    refine ⟨fun hown o' hlast' _ _ => ?_, fun halike o' hlast' _ _ => ?_⟩
    · obtain rfl := Option.some.inj (hlast.symm.trans hlast')
      exact hlaw.mp (hown _ hlast hclass hgiven)
    · obtain rfl := Option.some.inj (hlast.symm.trans hlast')
      exact hlaw.mpr (halike _ hlast hclass hlength)
  | @refused _ e hmessage =>
    exact absurd ⟨e, by rw [hrows]; exact List.mem_singleton_self _, hmessage⟩ hbudget
  | _ => cases hover

/-- The prompt of `twoRows` when it is queued. -/
def twoRowsQueued : State twoRows.concurrency :=
  (Runs.exec (step twoRows) (twoRows.start 0 0) (List.replicate 5 (.runner false))).get
    (by decide +kernel)

def firstWorker : Fin twoRows.concurrency := ⟨0, by decide⟩

def serverError : CallResult := .returned { statusCode := 500 }

def unparseable : CallResult := .returned { statusCode := 200, malformed := true }

/-- Once taken, the prompt is answered with `r`, and then with an unparseable 200. -/
def answeredTwice (r : CallResult) : List (Action CallResult twoRows.concurrency) :=
  [.worker firstWorker (.reply r 0 false), .worker firstWorker (.wake 0),
    .worker firstWorker (.reply unparseable 0 false)]

def answeredWakes (r : CallResult) : List (Wake CallResult) :=
  wakesOf twoRows firstWorker twoRowsQueued (.worker firstWorker .take :: answeredTwice r)

theorem answered_drive {r : CallResult} (hr : r = serverError ∨ r = unparseable) :
    ∃ books, ItemDrive twoRows.toWorkerConfig ⟨"a", "hello"⟩ (answeredWakes r) .idle books ∧
      books.rows = [.error ⟨"a", .transientExhausted, .maxAttemptsExhausted, 2, some 200⟩] := by
  have hidle : (Runs.exec (step twoRows) twoRowsQueued
      (.worker firstWorker .take :: answeredTwice r)).map (fun s => s.workers firstWorker) =
        some .idle := by
    rcases hr with rfl | rfl <;> decide +kernel
  obtain ⟨s, hrun, hlast⟩ := Option.map_eq_some_iff.mp hidle
  have hqueue : twoRowsQueued.ctx.queue.items = .ticket ⟨0, .item ⟨"a", "hello"⟩⟩ ::
      twoRowsQueued.ctx.queue.items.tail := by decide +kernel
  obtain ⟨books, hdrive⟩ := run_itemDrive hrun (by decide +kernel) hqueue (by simp [answeredTwice])
  rw [hlast] at hdrive
  refine ⟨books, hdrive, ?_⟩
  have hrows : (Runs.exec (driveStep twoRows.toWorkerConfig) (.idle, {}) (answeredWakes r)).map
      (fun q => q.2.rows) =
        some [.error ⟨"a", .transientExhausted, .maxAttemptsExhausted, 2, some 200⟩] := by
    rcases hr with rfl | rfl <;> decide +kernel
  have hsame := (congrArg (Option.map fun q => q.2.rows) hdrive.driven).symm.trans hrows
  exact Option.some.inj hsame

theorem answered_unhindered {r : CallResult} (hr : r = serverError ∨ r = unparseable) :
    ∀ w ∈ answeredWakes r, Unhindered w.ctx := by
  have hall : ∀ w ∈ answeredWakes r, w.ctx.cancelEvent = false ∧ w.ctx.abortEvent = false ∧
      (w.ctx.circuitBreaker.allowRequest w.ctx.now).1 = true := by
    rcases hr with rfl | rfl <;> decide +kernel
  exact fun w hw => ⟨(hall w hw).1, (hall w hw).2.1, (hall w hw).2.2⟩

theorem answered_within_budget {books : Books} (hrows : books.rows =
    [.error ⟨"a", .transientExhausted, .maxAttemptsExhausted, 2, some 200⟩]) :
    ¬ books.Reports .retryBudgetExhausted := by
  rintro ⟨e, he, hmessage⟩
  rw [hrows, List.mem_singleton] at he
  obtain rfl := Row.error.inj he
  cases hmessage

/-- A prompt that fails with a 500 has no second try at an unparseable answer. -/
theorem allowance_shared : ∃ (W : WorkerConfig CallResult) (p : PromptItem)
    (wakes : List (Wake CallResult)) (books : Books), ItemDrive W p wakes .idle books ∧
      (∀ w ∈ wakes, Unhindered w.ctx) ∧ ¬ books.Reports .retryBudgetExhausted ∧
        ¬ OwnAllowance (answersOf W wakes) books := by
  obtain ⟨books, hdrive, hrows⟩ := answered_drive (Or.inl rfl)
  refine ⟨_, _, _, books, hdrive, answered_unhindered (Or.inl rfl),
    answered_within_budget hrows, fun hown => ?_⟩
  have hlast : (answersOf twoRows.toWorkerConfig (answeredWakes serverError)).getLast? =
      some (.response { statusCode := 200, malformed := true }) := by decide +kernel
  have hcount := hown _ hlast (by decide) ⟨_, by rw [hrows]; exact List.mem_singleton_self _, rfl⟩
  exact absurd hcount (by decide +kernel)

theorem own_allowance_iff_twoRows : ∃ books : Books,
    ItemDrive twoRows.toWorkerConfig ⟨"a", "hello"⟩ (answeredWakes unparseable) .idle books ∧
      OwnAllowance (answersOf twoRows.toWorkerConfig (answeredWakes unparseable)) books := by
  obtain ⟨books, hdrive, hrows⟩ := answered_drive (Or.inr rfl)
  refine ⟨books, hdrive, ((own_allowance_iff hdrive (answered_unhindered (Or.inr rfl))
    (answered_within_budget hrows)).2 rfl).mpr ?_⟩
  have hanswers : answersOf twoRows.toWorkerConfig (answeredWakes unparseable) =
      List.replicate 2 (.response { statusCode := 200, malformed := true }) := by decide +kernel
  rw [hanswers]
  intro o hlast _ _ o' ho'
  rw [List.eq_of_mem_replicate (List.mem_of_getLast? hlast),
    List.eq_of_mem_replicate (List.mem_of_mem_take ho')]

end BatchEngine.Core
