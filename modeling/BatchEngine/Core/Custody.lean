import BatchEngine.Core.JobTurns
import BatchEngine.Lib.Custody

/-!
# Where every ingested entry is

An ingested entry that has no row yet is in the blocked put, in the queue or in the
hand of one worker. Each step of a job keeps these entries, adds the one just read, or
turns one of them into a row.
-/

set_option autoImplicit false

namespace BatchEngine.Core

variable {R : Type*}

def tickets (items : List Queued) : List Ticket :=
  items.filterMap fun
    | .ticket t => some t
    | .shutdown => none

def WorkerState.held (ws : WorkerState) : Multiset Ticket :=
  match ws.hand with
  | some h => {h.ticket}
  | none => 0

def RunPhase.held : RunPhase → Multiset Ticket
  | .putting t => {t}
  | _ => 0

/-- The tickets of the entries that are ingested and not resolved. -/
def unresolved {n : ℕ} (s : State n) : Multiset Ticket :=
  s.phase.held + ((tickets s.ctx.queue.items : Multiset Ticket) + ∑ i, (s.workers i).held)

/-- Whether the action is a spend check raising. -/
def Action.raisesInCheck {n : ℕ} : Action R n → Bool
  | .worker _ (.reply _ _ raises) => raises
  | _ => false

/-- What a turn does with the entry in the worker's hand, or taken from the queue: it
keeps it, or `out` is settled by the rows. -/
inductive Settles : Multiset Ticket → List Row → Bool → Prop
  | keeps : Settles 0 [] false
  | once {t : Ticket} {row : Row} (hid : row.itemId = t.entry.itemId) : Settles {t} [row] false
  | twice {t : Ticket} {row : Row} {e : RowError} (hid : row.itemId = t.entry.itemId)
      (hid' : e.itemId = t.entry.itemId) : Settles {t} [row, .error e] true

@[simp] theorem tickets_nil : tickets [] = [] := rfl
@[simp] theorem tickets_ticket (t : Ticket) (items : List Queued) :
    tickets (.ticket t :: items) = t :: tickets items := rfl
@[simp] theorem tickets_shutdown (items : List Queued) :
    tickets (.shutdown :: items) = tickets items := rfl
@[simp] theorem tickets_append (items items' : List Queued) :
    tickets (items ++ items') = tickets items ++ tickets items' := List.filterMap_append

theorem loopTurn_settles {ctx : WorkerContext} {h : InHand} {ws' : WorkerState} {e : Effect}
    (hturn : LoopTurn ctx h ws' e) :
    e.pops = [] ∧ ∃ out, Settles out e.rows false ∧ {h.ticket} = ws'.held + out := by
  cases hturn with
  | stopped _ hid =>
    exact ⟨rfl, {h.ticket}, .once hid, by simp [WorkerState.held, WorkerState.hand]⟩
  | _ => exact ⟨rfl, 0, .keeps, rfl⟩

theorem retryTurn_settles {h : InHand} {ws' : WorkerState} {e : Effect}
    (hturn : RetryTurn h ws' e) :
    e.pops = [] ∧ ∃ out, Settles out e.rows false ∧ {h.ticket} = ws'.held + out := by
  cases hturn with
  | gaveUp hid =>
    exact ⟨rfl, {h.ticket}, .once hid, by simp [WorkerState.held, WorkerState.hand]⟩
  | retried _ => exact ⟨rfl, 0, .keeps, rfl⟩

theorem callTurn_settles {W : WorkerConfig R} {ctx' : WorkerContext} {h : InHand}
    {outcome : Outcome} {raises : Bool} {ws' : WorkerState} {e : Effect}
    (hturn : CallTurn W ctx' h outcome raises ws' e) :
    e.pops = [] ∧ ∃ out, Settles out e.rows raises ∧ {h.ticket} = ws'.held + out := by
  cases hturn with
  | succeeded _ _ =>
    exact ⟨rfl, {h.ticket}, .once rfl, by simp [WorkerState.held, WorkerState.hand]⟩
  | raised _ _ hid =>
    exact ⟨rfl, {h.ticket}, .twice rfl hid, by simp [WorkerState.held, WorkerState.hand]⟩
  | fatal _ hid =>
    exact ⟨rfl, {h.ticket}, .once hid, by simp [WorkerState.held, WorkerState.hand]⟩
  | paused _ => exact ⟨rfl, 0, .keeps, rfl⟩
  | jittered _ => exact ⟨rfl, 0, .keeps, rfl⟩
  | failed _ _ hretry => exact retryTurn_settles hretry

/-- A worker gives up nothing that it does not turn into a row. -/
theorem turn_settles {W : WorkerConfig R} {ctx ctx' : WorkerContext} {ws ws' : WorkerState}
    {n : ℕ} {i : Fin n} {input : WorkerInput R} {e : Effect}
    (hturn : Turn W ctx ctx' ws input ws' e) :
    ∃ out, Settles out e.rows (Action.worker i input).raisesInCheck ∧
      ws.held + (tickets e.pops : Multiset Ticket) = ws'.held + out := by
  have hpopless : ∀ {h : InHand} {raises : Bool} {pops : List Queued} {rows : List Row},
      (pops = [] ∧ ∃ out, Settles out rows raises ∧ {h.ticket} = ws'.held + out) →
      ∃ out, Settles out rows raises ∧
        {h.ticket} + (tickets pops : Multiset Ticket) = ws'.held + out := by
    rintro h raises pops rows ⟨rfl, out, hsettles, hheld⟩
    exact ⟨out, hsettles, by rw [← hheld]; exact add_zero _⟩
  cases hturn with
  | shutdown => exact ⟨0, .keeps, rfl⟩
  | @passed seq e => exact ⟨{⟨seq, .error e⟩}, .once rfl, rfl⟩
  | taken hloop =>
    obtain ⟨-, out, hsettles, hheld⟩ := loopTurn_settles hloop
    exact ⟨out, hsettles, by rw [← hheld]; rfl⟩
  | asked hloop => exact hpopless (loopTurn_settles hloop)
  | looped hloop => exact hpopless (loopTurn_settles hloop)
  | waited => exact ⟨0, .keeps, rfl⟩
  | granted => exact ⟨0, .keeps, rfl⟩
  | replied hcall =>
    have hsettles := hpopless (callTurn_settles hcall)
    exact hsettles
  | jittered => exact ⟨0, .keeps, rfl⟩
  | resumed hretry => exact hpopless (retryTurn_settles hretry)

/-! ## One step of the job -/

/-- What a step does with the unresolved entries and the rows: a worker's turn settles
`out` by `rows`, a read adds the next entry, and every other step leaves both alone. -/
inductive StepCustody {n : ℕ} (s s' : State n) (raises : Bool) : Prop
  | settled {out : Multiset Ticket} {rows : List Row} (hsettles : Settles out rows raises)
      (hsubmitted : s'.ctx.sink.submitted = s.ctx.sink.submitted ++ rows)
      (hunresolved : unresolved s = out + unresolved s')
      (hingested : s'.ctx.record.counts.ingested = s.ctx.record.counts.ingested)
  | admitted {parsed : Entry} {rest : List Entry} (hphase : s.phase = .reading)
      (hrest : s.rest = parsed :: rest) (hraises : raises = false)
      (hsubmitted : s'.ctx.sink.submitted = s.ctx.sink.submitted)
      (hunresolved : unresolved s' = ⟨s.ctx.record.counts.ingested, parsed⟩ ::ₘ unresolved s)
      (hingested : s'.ctx.record.counts.ingested = s.ctx.record.counts.ingested + 1)

theorem settles_ingested (rows : List Row) (record : JobRecord) :
    (rows.foldl JobRecord.settle record).counts.ingested = record.counts.ingested :=
  settles_frame (fun record => record.counts.ingested) (fun _ row => by cases row <;> rfl) rows record

/-- A step that moves no ticket. -/
theorem stepCustody_still {n : ℕ} {s s' : State n}
    (hsubmitted : s'.ctx.sink.submitted = s.ctx.sink.submitted)
    (hqueue : tickets s'.ctx.queue.items = tickets s.ctx.queue.items)
    (hphase : s'.phase.held = s.phase.held) (hworkers : s'.workers = s.workers)
    (hingested : s'.ctx.record.counts.ingested = s.ctx.record.counts.ingested) :
    StepCustody s s' false := by
  refine .settled .keeps (by rw [hsubmitted, List.append_nil]) ?_ hingested
  unfold unresolved
  rw [hqueue, hphase, hworkers, zero_add]

theorem step_custody {J : JobRunner R} {s s' : State J.concurrency}
    {a : Action R J.concurrency} (h : JobTurn J s a s') : StepCustody s s' a.raisesInCheck := by
  cases h with
  | tick _ => exact stepCustody_still rfl rfl rfl rfl rfl
  | cancel => exact stepCustody_still rfl rfl rfl rfl rfl
  | wrote hsink => exact stepCustody_still (ResultSink.submitted_writerStep hsink) rfl rfl rfl rfl
  | timedOut hsink =>
    exact stepCustody_still (ResultSink.submitted_writerTimeout hsink) rfl rfl rfl rfl
  | @worker i input ctx' ws' e hturn hdoes =>
    obtain ⟨out, hsettles, hheld⟩ := turn_settles (i := i) hturn
    refine .settled hsettles hdoes.submitted ?_ ?_
    · have hqueue : (tickets s.ctx.queue.items : Multiset Ticket) =
          tickets e.pops + tickets ctx'.queue.items := by
        rw [hdoes.queue, tickets_append, Multiset.coe_add]
      have hsum := Runs.sum_update_add s.workers WorkerState.held i ws'
      unfold unresolved
      rw [Custody.exchange hqueue hsum hheld, add_left_comm]
    · rw [hdoes.record]
      exact settles_ingested _ _
  | begun hphase => exact stepCustody_still rfl rfl (by rw [hphase]; rfl) rfl rfl
  | ended hphase _ => exact stepCustody_still rfl rfl (by rw [hphase]; rfl) rfl rfl
  | dropped hphase _ _ => exact stepCustody_still rfl rfl (by rw [hphase]; rfl) rfl rfl
  | @ingested parsed rest hphase hrest =>
    refine .admitted hphase hrest rfl rfl ?_ rfl
    have hheld : s.phase.held = 0 := by rw [hphase]; rfl
    unfold unresolved
    rw [hheld, zero_add]
    exact Multiset.singleton_add _ _
  | @put t q next hphase hput hnext =>
    have hitems := (BoundedQueue.put_some hput).2.1
    have hnone : next.held = 0 := by obtain rfl | rfl | rfl := hnext <;> rfl
    have hheld : s.phase.held = {t} := by rw [hphase]; rfl
    have hqueue : (tickets q.items : Multiset Ticket) = tickets s.ctx.queue.items + {t} := by
      rw [hitems, tickets_append, ← Multiset.coe_add]
      rfl
    refine .settled .keeps (List.append_nil _).symm ?_ rfl
    unfold unresolved
    rw [hheld, hnone, hqueue, zero_add, zero_add, ← add_assoc]
    exact congrArg (· + ∑ i, (s.workers i).held) (add_comm _ _)
  | @saved next hphase hnext =>
    have hnone : next.held = 0 := by obtain rfl | rfl := hnext <;> rfl
    exact stepCustody_still rfl rfl (by rw [hphase]; exact hnone) rfl rfl
  | closed hphase => exact stepCustody_still rfl rfl (by rw [hphase]; rfl) rfl rfl
  | sentinel hphase hput =>
    have hitems := (BoundedQueue.put_some hput).2.1
    refine stepCustody_still rfl ?_ (by rw [hphase]; rfl) rfl rfl
    rw [hitems, tickets_append, tickets_shutdown, tickets_nil, List.append_nil]
  | gathering hphase => exact stepCustody_still rfl rfl (by rw [hphase]; rfl) rfl rfl
  | gathered hphase hall =>
    exact stepCustody_still (ResultSink.submitted_close _) rfl (by rw [hphase]; rfl) rfl rfl
  | reraised hphase => exact stepCustody_still rfl rfl (by rw [hphase]; rfl) rfl rfl
  | costRaised hphase hraise => exact stepCustody_still rfl rfl (by rw [hphase]; rfl) rfl rfl
  | finalized hphase _ =>
    refine stepCustody_still rfl rfl ?_ rfl rfl
    rw [hphase]
    split <;> rfl
  | savedFinal hphase => exact stepCustody_still rfl rfl (by rw [hphase]; rfl) rfl rfl
  | delivered hphase => exact stepCustody_still rfl rfl (by rw [hphase]; rfl) rfl rfl

/-! ## Runs without a raise -/

section Unraised

variable {J : JobRunner R}

/-- The states that some run reaches in which no spend check has raised. -/
def Unraised (J : JobRunner R) (s : State J.concurrency) : Prop :=
  ∃ now wall actions, Runs.exec (step J) (J.start now wall) actions = some s ∧
    ∀ a ∈ actions, a.raisesInCheck = false

theorem Unraised.reachable {s : State J.concurrency} (h : Unraised J s) : Reachable J s := by
  obtain ⟨now, wall, actions, hrun, -⟩ := h
  exact ⟨now, wall, actions, hrun⟩

theorem unraised_start (J : JobRunner R) (now wall : ℚ) : Unraised J (J.start now wall) :=
  ⟨now, wall, [], rfl, List.forall_mem_nil _⟩

theorem Unraised.exec {s s' : State J.concurrency} {actions : List (Action R J.concurrency)}
    (h : Unraised J s) (hrun : Runs.exec (Core.step J) s actions = some s')
    (hquiet : ∀ a ∈ actions, a.raisesInCheck = false) : Unraised J s' := by
  obtain ⟨now, wall, before, hbefore, hnone⟩ := h
  refine ⟨now, wall, before ++ actions, Runs.exec_append.mpr ⟨s, hbefore, hrun⟩, ?_⟩
  exact List.forall_mem_append.mpr ⟨hnone, hquiet⟩

theorem Unraised.step {s s' : State J.concurrency} {a : Action R J.concurrency}
    (h : Unraised J s) (hs : Core.step J s a = some s') (hquiet : a.raisesInCheck = false) :
    Unraised J s' :=
  h.exec (Runs.exec_cons_iff.mpr ⟨s', hs, rfl⟩) (List.forall_mem_singleton.mpr hquiet)

/-- The rule of `Reachable.invariant`, for steps that are no raise. -/
theorem Unraised.invariant {I : State J.concurrency → Prop}
    (hstart : ∀ now wall, I (J.start now wall))
    (hstep : ∀ s a s', Unraised J s → I s → a.raisesInCheck = false → JobTurn J s a s' → I s')
    {s : State J.concurrency} (h : Unraised J s) : I s := by
  obtain ⟨now, wall, actions, hrun, hquiet⟩ := h
  have hboth : Unraised J s ∧ I s := by
    refine Runs.exec_invariant (I := fun s => Unraised J s ∧ I s) ?_ hquiet
      ⟨unraised_start J now wall, hstart now wall⟩ hrun
    exact fun s a t hq hs ht => ⟨hs.1.step ht hq, hstep s a t hs.1 hs.2 hq (step_turn ht)⟩
  exact hboth.2

end Unraised

end BatchEngine.Core
