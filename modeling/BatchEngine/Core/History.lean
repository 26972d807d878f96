import BatchEngine.Core.Emissions
import BatchEngine.Core.TerminalStatus

/-!
# What has happened in a run

The history of a run holds the answers to its calls, the reasons that these answers gave
to abort the job, and whether a cancel request came in time. The event and the boxes that
the workers share tell it only in part.
-/

set_option autoImplicit false

namespace BatchEngine.Core

open BatchEngine.Providers

variable {R : Type*} {J : JobRunner R}

/-- `replies` has the id of the item with each answer; `cancelled` is a cancel request
before the status was computed. -/
structure History where
  cancelled : Bool := false
  replies : List (String × Outcome) := []
  causes : List AbortReason := []

/-- The reason that an answer gives to abort the job. `record` has counted the answer. -/
def abortCause (W : WorkerConfig R) (record : JobRecord) (outcome : Outcome) : List AbortReason :=
  if (classify outcome).1 = .success then
    if GuardTrips W record then [guardReason W record] else []
  else if (classify outcome).1.isFatal then [.fatal (classify outcome).1 outcome.httpStatus]
  else []

def History.request (hist : History) : Stage → History
  | .unfinalized => { hist with cancelled := true }
  | _ => hist

def History.reply (hist : History) (W : WorkerConfig R) (record : JobRecord) (r : R)
    (raises : Bool) : WorkerState → History
  | .calling h _ =>
    let outcome := outcomeOf (W.provider.complete r)
    { hist with
      replies := hist.replies ++ [(h.item.id, outcome)]
      -- The exception has cut the spend check off.
      causes := hist.causes ++ if raises then [] else abortCause W record outcome }
  | _ => hist

def recount (J : JobRunner R) (s : State J.concurrency) (a : Action R J.concurrency)
    (s' : State J.concurrency) (hist : History) : History :=
  match a with
  | .cancel => hist.request s.phase.stage
  | .worker i (.reply r _ raises) =>
    hist.reply J.toWorkerConfig s'.ctx.record r raises (s.workers i)
  | _ => hist

def recountedStep (J : JobRunner R) : State J.concurrency × History → Action R J.concurrency →
    Option (State J.concurrency × History) :=
  Runs.withHistory (step J) (recount J)

/-- Some run from the start has this history and comes to this state. -/
def Happens (J : JobRunner R) (s : State J.concurrency) (hist : History) : Prop :=
  ∃ now wall actions, Runs.exec (recountedStep J) (J.start now wall, {}) actions = some (s, hist)

theorem Happens.reachable {s : State J.concurrency} {hist : History} (h : Happens J s hist) :
    Reachable J s := by
  obtain ⟨now, wall, actions, hrun⟩ := h
  exact ⟨now, wall, actions, Runs.exec_of_withHistory hrun⟩

theorem Happens.step {s s' : State J.concurrency} {a : Action R J.concurrency} {hist : History}
    (h : Happens J s hist) (hs : Core.step J s a = some s') :
    Happens J s' (recount J s a s' hist) := by
  obtain ⟨now, wall, actions, hrun⟩ := h
  exact ⟨now, wall, actions ++ [a],
    Runs.exec_snoc.mpr ⟨(s, hist), hrun, Runs.withHistory_some.mpr ⟨hs, rfl⟩⟩⟩

/-- What holds at the start, with nothing yet happened, and is kept by every recounted step
holds after every history. -/
theorem Happens.invariant {I : State J.concurrency → History → Prop}
    (hstart : ∀ now wall, I (J.start now wall) {})
    (hstep : ∀ s a s' hist, Happens J s hist → I s hist → Core.step J s a = some s' →
      I s' (recount J s a s' hist)) {s : State J.concurrency} {hist : History}
    (h : Happens J s hist) : I s hist := by
  obtain ⟨now, wall, actions, hrun⟩ := h
  have hboth : Happens J s hist ∧ I s hist := by
    refine Runs.exec_invariant' (I := fun p : State J.concurrency × History =>
      Happens J p.1 p.2 ∧ I p.1 p.2) ?_ ⟨⟨now, wall, [], rfl⟩, hstart now wall⟩ hrun
    rintro p a q ⟨hp, hI⟩ hq
    obtain ⟨hturn, hhist⟩ := Runs.withHistory_some.mp hq
    rw [hhist]
    exact ⟨hp.step hturn, hstep p.1 a q.1 p.2 hp hI hturn⟩
  exact hboth.2

/-! ## What the boxes tell of it -/

/-- The classes of the fatal answers, in their order. -/
def History.fatalClasses (hist : History) : List FailureClass :=
  (hist.replies.map fun p => (classify p.2).1).filter FailureClass.isFatal

/-- The event is set once there is a cause, the first reason is the first cause, and only
the fatal answers have left their class. -/
structure BoxesTell (boxes : AbortBoxes) (hist : History) : Prop where
  event : boxes.event = true ↔ hist.causes ≠ []
  reason : boxes.reason.head? = hist.causes.head?
  failureClass : boxes.failureClass = hist.fatalClasses

theorem abortCause_calm {W : WorkerConfig R} {record : JobRecord} {outcome : Outcome}
    (hsuccess : (classify outcome).1 ≠ .success) (hfatal : (classify outcome).1.isFatal = false) :
    abortCause W record outcome = [] := by
  rw [abortCause, if_neg hsuccess, hfatal]
  rfl

/-- A reply that is not fatal leaves no class. -/
theorem fatalClasses_snoc (hist : History) (id : String) (outcome : Outcome)
    (causes : List AbortReason) :
    History.fatalClasses { hist with replies := hist.replies ++ [(id, outcome)], causes } =
      hist.fatalClasses ++ if (classify outcome).1.isFatal then [(classify outcome).1] else [] := by
  rw [History.fatalClasses, List.map_append, List.filter_append, History.fatalClasses]
  show _ ++ List.filter _ [(classify outcome).1] = _
  rw [List.filter_singleton]
  cases (classify outcome).1.isFatal <;> rfl

/-- A turn with no success and no fatal answer is no cause. -/
theorem BoxesTell.calm {boxes : AbortBoxes} {hist : History} (h : BoxesTell boxes hist)
    {s s' : State J.concurrency} {i : Fin J.concurrency} {input : WorkerInput R}
    (hcalm : input.Calm J.toWorkerConfig) :
    BoxesTell boxes (recount J s (.worker i input) s' hist) := by
  cases input with
  | take => exact h
  | wake u => exact h
  | reply r u raises =>
    obtain ⟨hsuccess, hfatal⟩ := hcalm
    simp only [recount]
    cases s.workers i with
    | calling hand start =>
      have hnone : (if raises then [] else
          abortCause J.toWorkerConfig s'.ctx.record (outcomeOf (J.provider.complete r))) = [] := by
        rw [abortCause_calm hsuccess hfatal, ite_self]
      simp only [History.reply, hnone, List.append_nil]
      refine ⟨h.event, h.reason, ?_⟩
      rw [fatalClasses_snoc, hfatal]
      exact h.failureClass.trans (List.append_nil _).symm
    | _ => exact h

theorem BoxesTell.guarded {boxes : AbortBoxes} {hist : History} (h : BoxesTell boxes hist)
    (W : WorkerConfig R) (record : JobRecord) (id : String) {outcome : Outcome}
    (hsuccess : (classify outcome).1 = .success) :
    BoxesTell (boxes.guarded W record)
      { hist with
        replies := hist.replies ++ [(id, outcome)]
        causes := hist.causes ++ abortCause W record outcome } := by
  have hclasses : boxes.failureClass = hist.fatalClasses ++
      if (classify outcome).1.isFatal then [(classify outcome).1] else [] := by
    rw [hsuccess]
    exact h.failureClass.trans (List.append_nil _).symm
  rw [AbortBoxes.guarded, abortCause, if_pos hsuccess]
  by_cases htrips : GuardTrips W record
  · rw [if_pos htrips, if_pos htrips]
    refine ⟨iff_of_true rfl (List.append_ne_nil_of_right_ne_nil _ nofun), ?_, ?_⟩
    · show (if boxes.event = true then _ else _ : List AbortReason).head? = _
      by_cases hevent : boxes.event = true
      · -- The job was aborted already: the check appends no reason.
        obtain ⟨cause, causes, hcauses⟩ := List.exists_cons_of_ne_nil (h.event.mp hevent)
        rw [if_pos hevent, h.reason, hcauses]
        rfl
      · have hnone : hist.causes = [] := not_not.mp (mt h.event.mpr hevent)
        have hempty : boxes.reason = [] := by
          rw [← List.head?_eq_none_iff, h.reason, hnone]
          rfl
        rw [if_neg hevent, hempty, hnone]
    · rw [fatalClasses_snoc]
      exact hclasses
  · rw [if_neg htrips, if_neg htrips, List.append_nil]
    refine ⟨h.event, h.reason, ?_⟩
    rw [fatalClasses_snoc]
    exact hclasses

theorem BoxesTell.fatal {boxes : AbortBoxes} {hist : History} (h : BoxesTell boxes hist)
    (W : WorkerConfig R) (record : JobRecord) (id : String) {outcome : Outcome}
    (hfatal : (classify outcome).1.isFatal = true) :
    BoxesTell (boxes.fatal outcome)
      { hist with
        replies := hist.replies ++ [(id, outcome)]
        causes := hist.causes ++ abortCause W record outcome } := by
  have hsuccess : (classify outcome).1 ≠ .success := by
    intro hclass
    rw [hclass] at hfatal
    cases hfatal
  rw [abortCause, if_neg hsuccess, if_pos hfatal]
  refine ⟨iff_of_true rfl (List.append_ne_nil_of_right_ne_nil _ nofun), ?_, ?_⟩
  · show (boxes.reason ++ [_]).head? = _
    rw [List.head?_append, List.head?_append, h.reason]
  · rw [fatalClasses_snoc, if_pos hfatal, AbortBoxes.fatal, h.failureClass]

theorem worker_boxesTell {s s' : State J.concurrency} {i : Fin J.concurrency}
    {input : WorkerInput R} {hist : History} (h : step J s (.worker i input) = some s')
    (hs : BoxesTell s.ctx.boxes hist) :
    BoxesTell s'.ctx.boxes (recount J s (.worker i input) s' hist) := by
  obtain ⟨⟨ctx', ws'⟩, hworker, rfl⟩ := Option.map_eq_some_iff.mp h
  obtain ⟨rows, boxes, hemission, hleaves⟩ := workerStep_emission hworker
  rw [hleaves.boxes]
  generalize hws : s.workers i = ws at hemission
  cases hemission with
  | quiet hcalm => exact hs.calm hcalm
  | passed _ => exact hs
  | cancelled htop _ _ => exact hs.calm htop.calm
  | aborted htop _ _ _ => exact hs.calm htop.calm
  | succeeded hclass =>
    simp only [recount, hws, History.reply]
    exact hs.guarded _ _ _ hclass
  | raised hclass _ =>
    simp only [recount, hws, History.reply, ↓reduceIte, List.append_nil]
    refine ⟨hs.event, hs.reason, ?_⟩
    rw [fatalClasses_snoc, hclass]
    exact hs.failureClass.trans (List.append_nil _).symm
  | fatal hfatal _ =>
    simp only [recount, hws, History.reply]
    exact hs.fatal _ _ _ hfatal
  | failed hsuccess hfatal _ _ => exact hs.calm ⟨hsuccess, hfatal⟩
  | gaveUp _ => exact hs
  | exhausted hcalm _ => exact hs.calm hcalm

theorem step_boxes {s s' : State J.concurrency} {a : Action R J.concurrency}
    (h : JobTurn J s a s') (hnot : ∀ i input, a ≠ .worker i input) :
    s'.ctx.boxes = s.ctx.boxes := by
  cases h with
  | worker _ _ => exact absurd rfl (hnot _ _)
  | _ => rfl

theorem happens_boxesTell {s : State J.concurrency} {hist : History} (h : Happens J s hist) :
    BoxesTell s.ctx.boxes hist := by
  refine h.invariant (I := fun s hist => BoxesTell s.ctx.boxes hist) ?_ ?_
  · exact fun now wall => ⟨iff_of_false nofun fun h => h rfl, rfl, rfl⟩
  · intro s a s' hist _ hs ht
    cases a with
    | worker i input => exact worker_boxesTell ht hs
    | cancel =>
      rw [step_boxes (step_turn ht) nofun]
      simp only [recount]
      cases s.phase.stage <;> exact ⟨hs.event, hs.reason, hs.failureClass⟩
    | tick dt wall =>
      rw [step_boxes (step_turn ht) nofun]
      exact hs
    | runner raises =>
      rw [step_boxes (step_turn ht) nofun]
      exact hs
    | writer =>
      rw [step_boxes (step_turn ht) nofun]
      exact hs
    | writerTimeout =>
      rw [step_boxes (step_turn ht) nofun]
      exact hs

end BatchEngine.Core
