import BatchEngine.Core.Conservation
import Mathlib.Algebra.Order.Group.Multiset
import Mathlib.Algebra.Order.BigOperators.Group.Finset

/-!
# What is still sent after a stop

`process_item` looks at the two stop events at the top of its loop, and then waits for
the bucket before it calls the provider. It does not look again after that wait. So the
requests that were waiting for a token when the job was stopped still go out, and no
others do.
-/

set_option autoImplicit false

namespace BatchEngine.Core

open BatchEngine.Providers

variable {R : Type*} {J : JobRunner R}

def Stopped (ctx : WorkerContext) : Prop := ctx.cancelEvent = true ∨ ctx.abortEvent = true

/-- The call that a worker will make as soon as it has a token. -/
def WorkerState.waiting : WorkerState → Multiset Call
  | .acquiring h _ => {⟨h.seq, h.attempt⟩}
  | _ => 0

def waiting {n : ℕ} (s : State n) : Multiset Call := ∑ i, (s.workers i).waiting

theorem waiting_eq_zero_iff {n : ℕ} (s : State n) :
    waiting s = 0 ↔ ∀ i, (s.workers i).isAcquiring = false := by
  have hone : ∀ ws : WorkerState, ws.waiting = 0 ↔ ws.isAcquiring = false := by
    intro ws
    cases ws with
    | acquiring h wake => exact iff_of_false (Multiset.singleton_ne_zero _) Bool.true_eq_false.mp
    | _ => exact iff_of_true rfl rfl
  unfold waiting
  rw [Finset.sum_eq_zero_iff]
  exact forall_congr' fun i => by rw [hone]; simp

/-! ## One step of a stopped job -/

theorem loopTurn_stopped {ctx : WorkerContext} {h : InHand} {ws' : WorkerState} {e : Effect}
    (hstop : Stopped ctx) (hturn : LoopTurn ctx h ws' e) :
    (e.calls : Multiset Call) + ws'.waiting = 0 := by
  have hnot : ¬ (ctx.cancelEvent = false ∧ ctx.abortEvent = false) := by
    rintro ⟨hcancel, habort⟩
    rcases hstop with h | h
    · rw [hcancel] at h; cases h
    · rw [habort] at h; cases h
  cases hturn with
  | stopped _ _ => rfl
  | refused hrun _ => exact absurd hrun hnot
  | admitted hrun _ => exact absurd hrun hnot
  | called hrun _ => exact absurd hrun hnot

theorem retryTurn_stopped {h : InHand} {ws' : WorkerState} {e : Effect}
    (hturn : RetryTurn h ws' e) : (e.calls : Multiset Call) + ws'.waiting = 0 := by
  cases hturn <;> rfl

/-- After a stop a worker only sends what it was waiting to send. -/
theorem turn_stopped {W : WorkerConfig R} {ctx ctx' : WorkerContext} {ws ws' : WorkerState}
    {input : WorkerInput R} {e : Effect} (hstop : Stopped ctx)
    (hturn : Turn W ctx ctx' ws input ws' e) :
    (e.calls : Multiset Call) + ws'.waiting = ws.waiting := by
  cases hturn with
  | shutdown => rfl
  | passed => rfl
  | taken hloop =>
    have hnone := loopTurn_stopped hstop hloop
    exact hnone
  | asked hloop => exact loopTurn_stopped hstop hloop
  | looped hloop => exact loopTurn_stopped hstop hloop
  | waited => rfl
  | granted => rfl
  | replied hcall =>
    cases hcall with
    | failed _ _ hretry =>
      have hnone := retryTurn_stopped hretry
      exact hnone
    | _ => rfl
  | jittered => rfl
  | resumed hretry => exact retryTurn_stopped hretry

/-- `s'` differs from the stopped `s` by calls that were waiting in `s`. -/
structure SendsWaiting {n : ℕ} (s s' : State n) : Prop where
  stopped : Stopped s.ctx → Stopped s'.ctx
  sends : Stopped s.ctx → ∃ late : List Call,
    s'.ctx.calls = s.ctx.calls ++ late ∧ (late : Multiset Call) + waiting s' = waiting s

theorem SendsWaiting.refl {n : ℕ} (s : State n) : SendsWaiting s s :=
  ⟨id, fun _ => ⟨[], (List.append_nil _).symm, zero_add _⟩⟩

theorem SendsWaiting.trans {n : ℕ} {s t u : State n} (h : SendsWaiting s t)
    (h' : SendsWaiting t u) : SendsWaiting s u := by
  refine ⟨fun hs => h'.stopped (h.stopped hs), fun hs => ?_⟩
  obtain ⟨late, hcalls, hwaiting⟩ := h.sends hs
  obtain ⟨late', hcalls', hwaiting'⟩ := h'.sends (h.stopped hs)
  refine ⟨late ++ late', ?_, ?_⟩
  · rw [hcalls', hcalls, List.append_assoc]
  · rw [← Multiset.coe_add, add_assoc, hwaiting', hwaiting]

/-- A step that touches neither events, calls nor workers. -/
theorem SendsWaiting.still {n : ℕ} {s s' : State n}
    (hstopped : Stopped s.ctx → Stopped s'.ctx) (hcalls : s'.ctx.calls = s.ctx.calls)
    (hworkers : s'.workers = s.workers) : SendsWaiting s s' := by
  refine ⟨hstopped, fun _ => ⟨[], by rw [hcalls, List.append_nil], ?_⟩⟩
  unfold waiting
  rw [hworkers]
  exact zero_add _

theorem step_sendsWaiting {s s' : State J.concurrency} {a : Action R J.concurrency}
    (h : JobTurn J s a s') : SendsWaiting s s' := by
  cases h with
  | @worker i input ctx' ws' e hturn hdoes =>
    refine ⟨?_, fun hs => ⟨e.calls, hdoes.calls, ?_⟩⟩
    · rintro (hcancel | habort)
      · exact Or.inl (hdoes.cancelEvent.trans hcancel)
      · refine Or.inr ?_
        rw [hdoes.abortEvent, habort, Bool.true_or]
    · have hmove := turn_stopped hs hturn
      have hsum := Runs.sum_update_add s.workers WorkerState.waiting i ws'
      show (e.calls : Multiset Call) + ∑ j, (Function.update s.workers i ws' j).waiting =
        ∑ j, (s.workers j).waiting
      rw [← hmove, add_comm (e.calls : Multiset Call), ← add_assoc, add_right_comm] at hsum
      rw [add_comm]
      exact add_right_cancel hsum
  | cancel => exact .still (fun _ => Or.inl rfl) rfl rfl
  | _ => exact .still id rfl rfl

/-- Over any run from a stop, the calls made and the calls still waiting are together
those that were waiting when the job was stopped. -/
theorem run_sendsWaiting {actions : List (Action R J.concurrency)} {s s' : State J.concurrency}
    (hrun : Runs.exec (step J) s actions = some s') : SendsWaiting s s' :=
  Runs.exec_rel (R := fun s s' : State J.concurrency => SendsWaiting s s') SendsWaiting.refl
    (fun _ _ _ => SendsWaiting.trans) (fun _ _ _ ht => step_sendsWaiting (step_turn ht)) hrun

/-! ## The law -/

theorem waiting_drained {s : State J.concurrency} (h : Reachable J s) (hd : s.phase.Drained) :
    waiting s = 0 := by
  obtain ⟨ts, m, horder⟩ := reachable_orderly h
  exact Finset.sum_eq_zero fun i _ => by rw [horder.drained hd i]; rfl

/-- A stopped job sends nothing more if no worker is waiting for a token, and only then
once it is over. -/
theorem dispatch_over_iff {s s' : State J.concurrency} (hreach : Reachable J s)
    (hstop : Stopped s.ctx) {actions : List (Action R J.concurrency)}
    (hrun : Runs.exec (step J) s actions = some s') :
    ((∀ i, (s.workers i).isAcquiring = false) → s'.ctx.calls = s.ctx.calls) ∧
    (s'.phase.Drained → unresolved s' = 0 ∧
      (s'.ctx.calls = s.ctx.calls ↔ ∀ i, (s.workers i).isAcquiring = false)) := by
  obtain ⟨late, hcalls, hwaiting⟩ := (run_sendsWaiting hrun).sends hstop
  have hnone : s'.ctx.calls = s.ctx.calls ↔ late = [] := by rw [hcalls, List.append_right_eq_self]
  rw [← waiting_eq_zero_iff, hnone]
  constructor
  · intro hzero
    rw [hzero, add_eq_zero] at hwaiting
    exact Multiset.coe_eq_zero _ |>.mp hwaiting.1
  · intro hd
    refine ⟨(drained_empty (hreach.exec hrun) hd).2, ?_⟩
    rw [waiting_drained (hreach.exec hrun) hd, add_zero] at hwaiting
    rw [← hwaiting, Multiset.coe_eq_zero]

/-- Three prompts for three workers, at two tokens. -/
def threePrompts : JobRunner CallResult where
  provider := scripted (1 / 5) (1 / 5)
  config := { concurrency := some 3 }
  input := { entries := [.item ⟨"a", "hello"⟩, .item ⟨"b", "hello"⟩, .item ⟨"c", "hello"⟩] }

def unauthorized : CallResult := .returned { statusCode := 401 }

/-- The first two prompts are sent, the third waits for a token, the first is answered. -/
def threePromptsRun : List (Action CallResult 3) :=
  List.replicate 7 (.runner false) ++
  [.nth 0 .take, .nth 1 .take, .nth 2 .take, .nth 0 (.reply unauthorized 0 false)]

def threePromptsAborted : State 3 :=
  (Runs.exec (step threePrompts) (threePrompts.start 0 0) threePromptsRun).get (by decide +kernel)

def threePromptsRest : List (Action CallResult 3) :=
  [.tick 1 1, .nth 2 (.wake 0), .nth 1 (.reply unauthorized 0 false),
    .nth 2 (.reply unauthorized 0 false)] ++
  List.replicate 6 (.runner false) ++ [.nth 0 .take, .nth 1 .take, .nth 2 .take,
    .runner false]

def threePromptsDrained : State 3 :=
  (Runs.exec (step threePrompts) threePromptsAborted threePromptsRest).get (by decide +kernel)

theorem threePromptsAborted_reachable : Reachable threePrompts threePromptsAborted :=
  ⟨0, 0, threePromptsRun, (Option.some_get _).symm⟩

/-- The third prompt of `threePrompts` is sent after the 401 has aborted the job. -/
theorem dispatch_continues : ∃ (J : JobRunner CallResult) (s s' : State J.concurrency)
    (actions : List (Action CallResult J.concurrency)), Reachable J s ∧ Stopped s.ctx ∧
      Runs.exec (step J) s actions = some s' ∧ s'.ctx.calls ≠ s.ctx.calls :=
  ⟨threePrompts, threePromptsAborted, threePromptsDrained, threePromptsRest,
    threePromptsAborted_reachable, Or.inr (by decide +kernel), (Option.some_get _).symm,
    by decide +kernel⟩

theorem dispatch_over_iff_threePrompts :
    unresolved threePromptsDrained = 0 ∧
      (threePromptsDrained.ctx.calls = threePromptsAborted.ctx.calls ↔
        ∀ i, (threePromptsAborted.workers i).isAcquiring = false) := by
  have hrun : Runs.exec (step threePrompts) threePromptsAborted threePromptsRest =
      some threePromptsDrained := (Option.some_get _).symm
  have hstop : Stopped threePromptsAborted.ctx := Or.inr (by decide +kernel)
  exact (dispatch_over_iff threePromptsAborted_reachable hstop hrun).2 (by decide +kernel)

end BatchEngine.Core
