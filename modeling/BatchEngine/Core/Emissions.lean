import BatchEngine.Core.JobTurns

/-!
# What a turn of a worker leaves behind

`Does` says how a turn moves the counters. This module says what else the rest of the job
can see of it: the rows that it hands to the sink, with the way each of them got its
class, and what it does to the boxes through which the workers learn why the job was
aborted.
-/

set_option autoImplicit false

namespace BatchEngine.Core

open BatchEngine.Providers

variable {R : Type*}

/-- The event and the two boxes that an abort fills. -/
structure AbortBoxes where
  event : Bool
  reason : List AbortReason
  failureClass : List FailureClass
  deriving DecidableEq, Repr

def WorkerContext.boxes (ctx : WorkerContext) : AbortBoxes :=
  ⟨ctx.abortEvent, ctx.abortReason, ctx.abortClass⟩

/-- The spend check after a success, on the record that it looks at. -/
def GuardTrips (W : WorkerConfig R) (record : JobRecord) : Prop :=
  SpendCheckDue record.counts ∧ OverCap W record

instance (W : WorkerConfig R) (record : JobRecord) : Decidable (GuardTrips W record) :=
  inferInstanceAs (Decidable (_ ∧ _))

/-- What the spend check says when it trips. -/
def guardReason (W : WorkerConfig R) (record : JobRecord) : AbortReason :=
  .spendGuard (costUsd W record.usage) (projectedUsd W record) W.config.maxJobSpendUsd

def AbortBoxes.guarded (boxes : AbortBoxes) (W : WorkerConfig R) (record : JobRecord) : AbortBoxes :=
  if GuardTrips W record then
    { boxes with
      event := true
      reason := if boxes.event then boxes.reason else boxes.reason ++ [guardReason W record] }
  else boxes

def AbortBoxes.fatal (boxes : AbortBoxes) (outcome : Outcome) : AbortBoxes where
  event := true
  reason := boxes.reason ++ [.fatal (classify outcome).1 outcome.httpStatus]
  failureClass := boxes.failureClass ++ [(classify outcome).1]

/-- The class of an item that used up its attempts. -/
def finalClass (c : FailureClass) : FailureClass :=
  if c = .throttled ∨ c = .transient then .transientExhausted else c

/-- The turn comes to the top of the loop over the attempts of an item. -/
inductive AtTop (ctx : WorkerContext) : WorkerState → WorkerInput R → Prop
  | taken {seq : ℕ} {p : PromptItem} {rest : List Queued}
      (hqueue : ctx.queue.items = .ticket ⟨seq, .item p⟩ :: rest) : AtTop ctx .idle .take
  | asked {h : InHand} {wake u : ℚ} : AtTop ctx (.breakerWait h wake) (.wake u)
  | slept {h : InHand} {wake u : ℚ} : AtTop ctx (.backoff h wake) (.wake u)

/-- The turn brings no success and no fatal answer. -/
def WorkerInput.Calm (W : WorkerConfig R) : WorkerInput R → Prop
  | .reply r _ _ => (classify (outcomeOf (W.provider.complete r))).1 ≠ .success ∧
      (classify (outcomeOf (W.provider.complete r))).1.isFatal = false
  | _ => True

theorem AtTop.calm {W : WorkerConfig R} {ctx : WorkerContext} {ws : WorkerState}
    {input : WorkerInput R} (h : AtTop ctx ws input) : input.Calm W := by
  cases h <;> trivial

/-- The ways in which a turn emits rows, and the boxes after it. -/
inductive Emission (W : WorkerConfig R) (ctx ctx' : WorkerContext) :
    WorkerState → WorkerInput R → List Row → AbortBoxes → Prop
  | quiet {ws : WorkerState} {input : WorkerInput R} (hcalm : input.Calm W) :
      Emission W ctx ctx' ws input [] ctx.boxes
  | passed {seq : ℕ} {e : RowError} {rest : List Queued}
      (hqueue : ctx.queue.items = .ticket ⟨seq, .error e⟩ :: rest) :
      Emission W ctx ctx' .idle .take [.error e] ctx.boxes
  | cancelled {ws : WorkerState} {input : WorkerInput R} {e : RowError}
      (htop : AtTop ctx ws input) (hcancel : ctx.cancelEvent = true)
      (hclass : e.failureClass = .cancelled) :
      Emission W ctx ctx' ws input [.error e] ctx.boxes
  | aborted {ws : WorkerState} {input : WorkerInput R} {e : RowError}
      (htop : AtTop ctx ws input) (hcancel : ctx.cancelEvent = false)
      (habort : ctx.abortEvent = true)
      (hclass : e.failureClass = ctx.abortClass.head?.getD .fatalAuth) :
      Emission W ctx ctx' ws input [.error e] ctx.boxes
  | succeeded {h : InHand} {start u : ℚ} {r : R} {result : RowResult}
      (hclass : (classify (outcomeOf (W.provider.complete r))).1 = .success) :
      Emission W ctx ctx' (.calling h start) (.reply r u false) [.result result]
        (ctx.boxes.guarded W ctx'.record)
  | raised {h : InHand} {start u : ℚ} {r : R} {result : RowResult} {e : RowError}
      (hclass : (classify (outcomeOf (W.provider.complete r))).1 = .success)
      (herror : e.failureClass = .transientExhausted) :
      Emission W ctx ctx' (.calling h start) (.reply r u true) [.result result, .error e] ctx.boxes
  | fatal {h : InHand} {start u : ℚ} {r : R} {e : RowError}
      (hfatal : (classify (outcomeOf (W.provider.complete r))).1.isFatal = true)
      (hclass : e.failureClass = (classify (outcomeOf (W.provider.complete r))).1) :
      Emission W ctx ctx' (.calling h start) (.reply r u false) [.error e]
        (ctx.boxes.fatal (outcomeOf (W.provider.complete r)))
  | failed {h : InHand} {start u : ℚ} {r : R} {e : RowError}
      (hsuccess : (classify (outcomeOf (W.provider.complete r))).1 ≠ .success)
      (hfatal : (classify (outcomeOf (W.provider.complete r))).1.isFatal = false)
      (hid : e.itemId = h.item.id)
      (hclass : e.failureClass =
        finalClass (classify (outcomeOf (W.provider.complete r))).1) :
      Emission W ctx ctx' (.calling h start) (.reply r u false) [.error e] ctx.boxes
  | gaveUp {h : InHand} {wake u : ℚ} {f : Failure} {e : RowError}
      (hclass : e.failureClass = finalClass f.failureClass) :
      Emission W ctx ctx' (.resetJitter h wake f) (.wake u) [.error e] ctx.boxes
  | exhausted {ws : WorkerState} {input : WorkerInput R} {e : RowError} (hcalm : input.Calm W)
      (hclass : e.failureClass = .transientExhausted) :
      Emission W ctx ctx' ws input [.error e] ctx.boxes

/-- The rows went to the sink in this order, and the boxes are these. -/
structure Leaves (ctx ctx' : WorkerContext) (rows : List Row) (boxes : AbortBoxes) : Prop where
  sink : ctx'.sink = rows.foldl ResultSink.submit ctx.sink
  boxes : ctx'.boxes = boxes

theorem Leaves.submitted {ctx ctx' : WorkerContext} {rows : List Row} {boxes : AbortBoxes}
    (h : Leaves ctx ctx' rows boxes) : ctx'.sink.submitted = ctx.sink.submitted ++ rows := by
  rw [h.sink]
  exact ResultSink.submitted_submits rows ctx.sink

/-! ## The segments -/

theorem leaves_finish_emitError (ctx : WorkerContext) (itemId : String) (c : FailureClass)
    (m : Message) (attempt : ℕ) (status : Option ℤ) :
    Leaves ctx (finish (emitError ctx itemId c m attempt status)).1
      [.error ⟨itemId, c, m, attempt, status⟩] ctx.boxes :=
  ⟨rfl, rfl⟩

theorem leaves_acquirePass (ctx : WorkerContext) (h : InHand) :
    Leaves ctx (acquirePass ctx h).1 [] ctx.boxes := by
  have hbranch := acquirePass_branch ctx h
  generalize acquirePass ctx h = next at hbranch ⊢
  cases hbranch with
  | granted _ => exact ⟨rfl, rfl⟩
  | waits _ => exact ⟨rfl, rfl⟩

/-- The top of the loop stops the item, or emits nothing. -/
theorem loopTop_emission (W : WorkerConfig R) {ctx : WorkerContext} (q : BoundedQueue Queued)
    (h : InHand) {ws : WorkerState} {input : WorkerInput R} (htop : AtTop ctx ws input) :
    ∃ rows boxes, Emission W ctx (loopTop (ctx.withQueue q) h).1 ws input rows boxes ∧
      Leaves ctx (loopTop (ctx.withQueue q) h).1 rows boxes := by
  have hbranch := loopTop_branch (ctx.withQueue q) h
  generalize loopTop (ctx.withQueue q) h = next at hbranch ⊢
  cases hbranch with
  | cancelled hcancel => exact ⟨_, _, .cancelled htop hcancel rfl, rfl, rfl⟩
  | aborted hcancel habort => exact ⟨_, _, .aborted htop hcancel habort rfl, rfl, rfl⟩
  | refused _ _ _ => exact ⟨_, _, .quiet htop.calm, rfl, rfl⟩
  | allowed _ _ _ =>
    have hpass := leaves_acquirePass
      ((ctx.withQueue q).withBreaker (ctx.circuitBreaker.allowRequest ctx.now).2)
      { h with attempt := h.attempt + 1 }
    exact ⟨_, _, .quiet htop.calm, hpass.sink, hpass.boxes⟩

/-- An item that failed is given up with its class, is refused a retry, or goes on. -/
def LeavesRetry (ctx ctx' : WorkerContext) (h : InHand) (c : FailureClass) : Prop :=
  (∃ e : RowError, e.itemId = h.item.id ∧ e.failureClass = finalClass c ∧
    Leaves ctx ctx' [.error e] ctx.boxes) ∨
  (∃ e : RowError, e.failureClass = .transientExhausted ∧ Leaves ctx ctx' [.error e] ctx.boxes) ∨
  Leaves ctx ctx' [] ctx.boxes

theorem retryOrFail_leaves (W : WorkerConfig R) {ctx ctx₁ : WorkerContext} (h : InHand)
    (f : Failure) (u : ℚ) (hsink : ctx₁.sink = ctx.sink) (hboxes : ctx₁.boxes = ctx.boxes) :
    LeavesRetry ctx (retryOrFail W ctx₁ h f u).1 h f.failureClass := by
  have hsame : ∀ {ctx₂ : WorkerContext} {rows : List Row}, Leaves ctx₁ ctx₂ rows ctx₁.boxes →
      Leaves ctx ctx₂ rows ctx.boxes :=
    fun hl => ⟨hsink ▸ hl.sink, hboxes ▸ hl.boxes⟩
  have hbranch := retryOrFail_branch W ctx₁ h f u
  generalize retryOrFail W ctx₁ h f u = next at hbranch ⊢
  cases hbranch with
  | gaveUp _ => exact Or.inl ⟨_, rfl, rfl, hsame (leaves_finish_emitError _ _ _ _ _ _)⟩
  | refused _ _ => exact Or.inr (Or.inl ⟨_, rfl, hsame (leaves_finish_emitError _ _ _ _ _ _)⟩)
  | retried _ _ => exact Or.inr (Or.inr (hsame ⟨rfl, rfl⟩))

theorem boxes_onSpendCheck (W : WorkerConfig R) (ctx : WorkerContext) :
    (onSpendCheck W ctx).boxes = ctx.boxes.guarded W ctx.record := by
  unfold onSpendCheck AbortBoxes.guarded
  by_cases htrips : GuardTrips W ctx.record
  · have hboth : SpendCheckDue ctx.record.counts ∧ OverCap W ctx.record := htrips
    rw [if_pos htrips, if_pos hboth]
    rfl
  · have hneither : ¬ (SpendCheckDue ctx.record.counts ∧ OverCap W ctx.record) := htrips
    rw [if_neg htrips, if_neg hneither]

theorem sink_onSpendCheck (W : WorkerConfig R) (ctx : WorkerContext) :
    (onSpendCheck W ctx).sink = ctx.sink := by
  unfold onSpendCheck
  split <;> rfl

/-- A success, from its row to `task_done`. -/
theorem completion_leaves (W : WorkerConfig R) (ctx : WorkerContext) (h : InHand)
    (resp : ProviderResponse) (latencyS : ℚ) {ctx' : WorkerContext}
    (hctx' : (finish (onSpendCheck W (emitResult ctx h resp latencyS))).1 = ctx') :
    ∃ result, Leaves ctx ctx' [.result result] (ctx.boxes.guarded W ctx'.record) := by
  have hboxes := boxes_onSpendCheck W (emitResult ctx h resp latencyS)
  have hsink := sink_onSpendCheck W (emitResult ctx h resp latencyS)
  refine ⟨⟨h.item.id, resp.text, ⟨resp.inputTokens, resp.outputTokens⟩, latencyS, h.attempt⟩, ?_, ?_⟩
  · rw [← hctx']
    exact hsink
  · rw [← hctx', finish_record, onSpendCheck_record]
    exact hboxes

theorem isFatal_throttled {c : FailureClass} (h : c = .throttled) : c.isFatal = false := by
  rw [h]
  rfl

theorem afterFailure_leaves (W : WorkerConfig R) (ctx : WorkerContext) (h : InHand)
    (outcome : Outcome) (u : ℚ) :
    ((classify outcome).1.isFatal = true ∧ ∃ e : RowError, e.failureClass = (classify outcome).1 ∧
      Leaves ctx (afterFailure W ctx h outcome (.of outcome) u).1 [.error e]
        (ctx.boxes.fatal outcome)) ∨
    ((classify outcome).1.isFatal = false ∧
      LeavesRetry ctx (afterFailure W ctx h outcome (.of outcome) u).1 h (classify outcome).1) := by
  have hbranch := afterFailure_branch W ctx h outcome (.of outcome) u
  generalize afterFailure W ctx h outcome (.of outcome) u = next at hbranch ⊢
  cases hbranch with
  | fatal hfatal => exact Or.inl ⟨hfatal, _, rfl, rfl, rfl⟩
  | jittered hthrottled _ _ =>
    exact Or.inr ⟨isFatal_throttled hthrottled, Or.inr (Or.inr ⟨rfl, rfl⟩)⟩
  | hung hthrottled _ _ =>
    exact Or.inr ⟨isFatal_throttled hthrottled, Or.inr (Or.inr ⟨rfl, rfl⟩)⟩
  | paused hthrottled _ _ =>
    exact Or.inr ⟨isFatal_throttled hthrottled, Or.inr (Or.inr ⟨rfl, rfl⟩)⟩
  | throttled hthrottled _ =>
    exact Or.inr ⟨isFatal_throttled hthrottled, retryOrFail_leaves W h (.of outcome) u rfl rfl⟩
  | failed hfatal _ => exact Or.inr ⟨hfatal, retryOrFail_leaves W h (.of outcome) u rfl rfl⟩

theorem callBranch_emission {W : WorkerConfig R} {ctx : WorkerContext} {h : InHand}
    {start u : ℚ} {r : R} {raises : Bool} {next : Next}
    (hcall : CallBranch W ctx h start r u raises next) :
    ∃ rows boxes, Emission W ctx next.1 (.calling h start) (.reply r u raises) rows boxes ∧
      Leaves ctx next.1 rows boxes := by
  cases hcall with
  | succeeded hresp hclass =>
    obtain ⟨result, hl⟩ := completion_leaves W _ h _ _ rfl
    exact ⟨_, _, .succeeded hclass, hl.sink, hl.boxes⟩
  | raised hresp hclass _ => exact ⟨_, _, .raised hclass rfl, rfl, rfl⟩
  | failed hsuccess =>
    have hsame : ∀ {ctx₂ : WorkerContext} {rows : List Row} {boxes : AbortBoxes},
        Leaves (recordOutcome ctx (classify (outcomeOf (W.provider.complete r))).1) ctx₂ rows
          boxes → Leaves ctx ctx₂ rows boxes :=
      fun hl => ⟨hl.sink, hl.boxes⟩
    rcases afterFailure_leaves W
      (recordOutcome ctx (classify (outcomeOf (W.provider.complete r))).1)
      h (outcomeOf (W.provider.complete r)) u with ⟨hfatal, e, hclass, hl⟩ | ⟨hfatal, hretry⟩
    · exact ⟨_, _, .fatal hfatal hclass, hsame hl⟩
    · rcases hretry with ⟨e, hid, hclass, hl⟩ | ⟨e, hclass, hl⟩ | hl
      · exact ⟨_, _, .failed hsuccess hfatal hid hclass, hsame hl⟩
      · exact ⟨_, _, .exhausted ⟨hsuccess, hfatal⟩ hclass, hsame hl⟩
      · exact ⟨_, _, .quiet ⟨hsuccess, hfatal⟩, hsame hl⟩

theorem takeItem_emission (W : WorkerConfig R) {ctx : WorkerContext} {x : Queued}
    {q : BoundedQueue Queued} (hget : ctx.queue.get = some (x, q)) :
    ∃ rows boxes, Emission W ctx (takeItem (ctx.withQueue q) x).1 .idle .take rows boxes ∧
      Leaves ctx (takeItem (ctx.withQueue q) x).1 rows boxes := by
  obtain ⟨hitems, -⟩ := BoundedQueue.get_some hget
  match x with
  | .shutdown => exact ⟨_, _, .quiet trivial, rfl, rfl⟩
  | .ticket ⟨seq, .error e⟩ => exact ⟨_, _, .passed hitems, rfl, rfl⟩
  | .ticket ⟨seq, .item p⟩ => exact loopTop_emission W q ⟨seq, p, 0⟩ (.taken hitems)

/-- What a turn of a worker leaves behind, and the way in which it came to that. -/
theorem workerStep_emission {W : WorkerConfig R} {ctx ctx' : WorkerContext} {ws ws' : WorkerState}
    {input : WorkerInput R} (hstep : workerStep W ctx ws input = some (ctx', ws')) :
    ∃ rows boxes, Emission W ctx ctx' ws input rows boxes ∧ Leaves ctx ctx' rows boxes := by
  have hbranch := workerStep_branch hstep
  generalize hnext : (ctx', ws') = next at hbranch
  rw [show ctx' = next.1 from congrArg Prod.fst hnext]
  cases hbranch with
  | took hget => exact takeItem_emission W hget
  | asked _ => exact loopTop_emission W ctx.queue _ .asked
  | @acquired h wake u _ => exact ⟨_, _, .quiet trivial, leaves_acquirePass ctx h⟩
  | replied _ hcall => exact callBranch_emission hcall
  | jittered _ _ => exact ⟨_, _, .quiet trivial, rfl, rfl⟩
  | @resumed h wake u f _ _ =>
    have hretry : LeavesRetry ctx (retryOrFail W ctx h f u).1 h f.failureClass :=
      retryOrFail_leaves W h f u rfl rfl
    rcases hretry with ⟨e, -, hclass, hl⟩ | ⟨e, hclass, hl⟩ | hl
    · exact ⟨_, _, .gaveUp hclass, hl⟩
    · exact ⟨_, _, .exhausted trivial hclass, hl⟩
    · exact ⟨_, _, .quiet trivial, hl⟩
  | looped _ => exact loopTop_emission W ctx.queue _ .slept

end BatchEngine.Core
