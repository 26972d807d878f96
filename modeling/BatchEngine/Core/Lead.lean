import BatchEngine.Core.SpendGuard
import Mathlib.Algebra.Order.BigOperators.Group.Finset

/-!
# How far the ingest runs ahead

An ingested entry without a row is in the blocked put, in one of the slots of the queue
or in the hand of a worker, so there are never many of them. `pending` counts them, as
long as no spend check raises.
-/

set_option autoImplicit false

namespace BatchEngine.Core

open BatchEngine.Providers

variable {R : Type*} {J : JobRunner R}

/-! ## The slots of the queue -/

/-- The queue has the size that `run` gave it, and holds no more than that. -/
structure Roomy {n : ℕ} (s : State n) : Prop where
  maxsize : s.ctx.queue.maxsize = n * queueMultiplier
  length : s.ctx.queue.items.length ≤ n * queueMultiplier

theorem Roomy.put {n : ℕ} {s : State n} (hs : Roomy s) (hn : 0 < n) {x : Queued}
    {q : BoundedQueue Queued} (hput : s.ctx.queue.put x = some q) :
    q.maxsize = n * queueMultiplier ∧ q.items.length ≤ n * queueMultiplier := by
  obtain ⟨hroom, hitems, hmax⟩ := BoundedQueue.put_some hput
  have hsize := hs.maxsize
  have hpos : 0 < n * queueMultiplier := Nat.mul_pos hn (by decide)
  have hlt : s.ctx.queue.items.length < s.ctx.queue.maxsize := by
    by_contra hfull
    exact hroom ⟨hsize ▸ hpos, not_lt.mp hfull⟩
  refine ⟨hmax.trans hsize, ?_⟩
  rw [hitems, List.length_append, List.length_singleton]
  omega

theorem step_roomy {s s' : State J.concurrency} {a : Action R J.concurrency} (hs : Roomy s)
    (h : JobTurn J s a s') : Roomy s' := by
  cases h with
  | @worker i input ctx' ws' e hturn hdoes =>
    have hitems := congrArg List.length hdoes.queue
    have hlength := hs.length
    rw [List.length_append] at hitems
    refine ⟨hdoes.maxsize.trans hs.maxsize, ?_⟩
    show ctx'.queue.items.length ≤ J.concurrency * queueMultiplier
    omega
  | put _ hput _ =>
    obtain ⟨hmax, hlength⟩ := hs.put J.concurrency_pos hput
    exact ⟨hmax, hlength⟩
  | sentinel _ hput =>
    obtain ⟨hmax, hlength⟩ := hs.put J.concurrency_pos hput
    exact ⟨hmax, hlength⟩
  | _ => exact ⟨hs.maxsize, hs.length⟩

theorem reachable_roomy {s : State J.concurrency} (h : Reachable J s) : Roomy s := by
  refine h.invariant (I := Roomy) ?_ ?_
  · exact fun now wall => ⟨rfl, Nat.zero_le _⟩
  · exact fun s a s' _ hs ht => step_roomy hs ht

/-! ## The places of an unresolved entry -/

theorem card_held_phase (p : RunPhase) : p.held.card ≤ 1 := by
  cases p with
  | putting t => exact (Multiset.card_singleton t).le
  | _ => exact Nat.zero_le 1

theorem card_held_worker (ws : WorkerState) : ws.held.card ≤ 1 := by
  unfold WorkerState.held
  cases ws.hand with
  | none => exact Nat.zero_le 1
  | some h => exact (Multiset.card_singleton _).le

/-- One blocked put, four slots and one hand for each worker. -/
theorem card_unresolved_le {s : State J.concurrency} (h : Reachable J s) :
    (unresolved s).card ≤ 5 * J.concurrency + 1 := by
  have hqueue : (tickets s.ctx.queue.items).length ≤ J.concurrency * queueMultiplier :=
    (List.length_filterMap_le _ _).trans (reachable_roomy h).length
  have hhands : ∑ i, (s.workers i).held.card ≤ J.concurrency := by
    calc ∑ i, (s.workers i).held.card ≤ ∑ _i : Fin J.concurrency, 1 :=
          Finset.sum_le_sum fun i _ => card_held_worker (s.workers i)
      _ = J.concurrency := by simp
  have hphase := card_held_phase s.phase
  unfold unresolved
  rw [Multiset.card_add, Multiset.card_add, Multiset.card_sum, Multiset.coe_card]
  unfold queueMultiplier at hqueue
  omega

theorem flight_bounds (ws : WorkerState) : 0 ≤ ws.flight ∧ ws.flight ≤ 1 := by
  unfold WorkerState.flight
  split <;> decide

theorem inFlight_bounds {s : State J.concurrency} (h : Reachable J s) :
    0 ≤ s.ctx.record.counts.inFlight ∧ s.ctx.record.counts.inFlight ≤ J.concurrency := by
  rw [reachable_flying h]
  constructor
  · exact Finset.sum_nonneg fun i _ => (flight_bounds (s.workers i)).1
  · calc ∑ i, (s.workers i).flight ≤ ∑ _i : Fin J.concurrency, (1 : ℤ) :=
          Finset.sum_le_sum fun i _ => (flight_bounds (s.workers i)).2
      _ = J.concurrency := by simp

/-! ## What `pending` counts -/

/-- How often a spend check of the run has raised. -/
def raisesIn {n : ℕ} (actions : List (Action R n)) : ℕ := actions.countP Action.raisesInCheck

theorem raisesIn_eq_sum {n : ℕ} (actions : List (Action R n)) :
    (raisesIn actions : ℤ) =
      (actions.map fun a => if a.raisesInCheck = true then (1 : ℤ) else 0).sum := by
  induction actions with
  | nil => rfl
  | cons a actions ih =>
    rw [List.map_cons, List.sum_cons, ← ih, raisesIn, List.countP_cons]
    push_cast
    exact add_comm _ _

/-- `pending` is short of the unresolved entries by the number of raises. -/
theorem pending_eq {now wall : ℚ} {actions : List (Action R J.concurrency)}
    {s : State J.concurrency} (hrun : Runs.exec (step J) (J.start now wall) actions = some s) :
    s.ctx.record.counts.pending = ((unresolved s).card : ℤ) - raisesIn actions := by
  have hstep : ∀ (s : State J.concurrency) (a : Action R J.concurrency) (t : State J.concurrency),
      Reachable J s → step J s a = some t →
        ((unresolved t).card : ℤ) - t.ctx.record.counts.pending =
        ((unresolved s).card : ℤ) - s.ctx.record.counts.pending +
          (if a.raisesInCheck = true then 1 else 0) :=
    fun s a t hs ht => step_pending hs (step_turn ht)
  have hsum := Runs.exec_additive (fun s a t hs ht => Reachable.step hs ht) hstep
    (reachable_start J now wall) hrun
  simp only [unresolved_start, Multiset.card_zero] at hsum
  have hzero : (J.start now wall).ctx.record.counts.pending = 0 := rfl
  rw [hzero, ← raisesIn_eq_sum] at hsum
  push_cast at hsum
  omega

/-! ## The law -/

/-- `0 <= in_flight <= c` and `0 <= pending <= 5 * c + 1`. -/
structure LeadBounded (J : JobRunner R) (s : State J.concurrency) : Prop where
  inFlight : 0 ≤ s.ctx.record.counts.inFlight ∧ s.ctx.record.counts.inFlight ≤ J.concurrency
  pending : 0 ≤ s.ctx.record.counts.pending ∧ s.ctx.record.counts.pending ≤ 5 * J.concurrency + 1

/-- Only `0 <= pending` can fail. -/
theorem leadBounded_iff {s : State J.concurrency} {now wall : ℚ}
    {actions : List (Action R J.concurrency)}
    (hrun : Runs.exec (step J) (J.start now wall) actions = some s) :
    LeadBounded J s ↔ raisesIn actions ≤ (unresolved s).card := by
  have hreach : Reachable J s := ⟨now, wall, actions, hrun⟩
  have hpending := pending_eq hrun
  have hcard := card_unresolved_le hreach
  constructor
  · intro hs
    have hnonneg := hs.pending.1
    omega
  · intro hraises
    refine ⟨inFlight_bounds hreach, ?_, ?_⟩
    · omega
    · omega

theorem raisesIn_eq_zero {n : ℕ} {actions : List (Action R n)} :
    raisesIn actions = 0 ↔ ∀ a ∈ actions, a.raisesInCheck = false := by
  rw [raisesIn, List.countP_eq_zero]
  exact forall₂_congr fun a _ => by rw [Bool.not_eq_true]

/-- In every run in which no spend check raises, the lead is bounded. One that raises is not
made up for: the bounds hold once the workers are drained only if none did. -/
theorem lead_bounded {now wall : ℚ} {actions : List (Action R J.concurrency)}
    {s : State J.concurrency} (hrun : Runs.exec (step J) (J.start now wall) actions = some s) :
    ((∀ a ∈ actions, a.raisesInCheck = false) → LeadBounded J s) ∧
      (s.phase.Drained → LeadBounded J s → ∀ a ∈ actions, a.raisesInCheck = false) := by
  rw [leadBounded_iff hrun, ← raisesIn_eq_zero]
  constructor
  · intro hnone
    rw [hnone]
    exact Nat.zero_le _
  · intro hdrained hle
    rw [(drained_empty ⟨now, wall, actions, hrun⟩ hdrained).2, Multiset.card_zero] at hle
    exact Nat.le_zero.mp hle

/-- 49 malformed rows and a prompt, for a provider whose cost methods raise. -/
def unpriced : JobRunner CallResult where
  provider := { scripted 0 0 with costMayRaise := true }
  config := { concurrency := some 1 }
  input :=
    { entries :=
        List.replicate 49 (.error ⟨"bad", .invalidInput, .ingest "malformed JSON line", 1, none⟩) ++
          [.item ⟨"a", "hello"⟩] }

/-- The prompt is the 50th item done, so its success makes a cost method raise. -/
def unpricedRun : List (Action CallResult 1) :=
  .runner false :: readAndTake 1 49 ++ List.replicate 3 (.runner false) ++
  [takeOne, .nth 0 (.reply (.returned { statusCode := 200, text := "hi" }) 0 true)]

def unpricedEnd : State unpriced.concurrency :=
  (Runs.exec (step unpriced) (unpriced.start 0 0) unpricedRun).get (by decide +kernel)

theorem unpricedEnd_reachable : Reachable unpriced unpricedEnd :=
  ⟨0, 0, unpricedRun, (Option.some_get _).symm⟩

/-- After the raise `pending` is -1. -/
theorem lead_unbounded : ∃ (J : JobRunner CallResult) (s : State J.concurrency),
    Reachable J s ∧ ¬ LeadBounded J s := by
  refine ⟨unpriced, unpricedEnd, unpricedEnd_reachable, fun h => ?_⟩
  have hnegative : ¬ 0 ≤ unpricedEnd.ctx.record.counts.pending := by decide +kernel
  exact hnegative h.pending.1

theorem lead_bounded_twoRows : LeadBounded twoRows twoRowsDrained := by
  have hrun : Runs.exec (step twoRows) (twoRows.start 0 0) twoRowsRun = some twoRowsDrained :=
    (Option.some_get _).symm
  have hquiet : ∀ a ∈ twoRowsRun, a.raisesInCheck = false := by decide +kernel
  exact (lead_bounded hrun).1 hquiet

end BatchEngine.Core
