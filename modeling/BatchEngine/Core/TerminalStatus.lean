import BatchEngine.Core.Conservation

/-!
# Does every job reach a terminal status

The record is finalised after the `finally` block that drains the workers, not inside
it. An exception out of the input stream skips that code: the job ends with its status
still running. This module says what an undisturbed job has come to at each phase.
-/

set_option autoImplicit false

namespace BatchEngine.Core

open BatchEngine.Providers

variable {R : Type*} {J : JobRunner R}

/-- The record says how the job ended, and the store has it. -/
def TerminalSaved {n : ℕ} (s : State n) : Prop :=
  s.ctx.record.status.IsTerminal ∧ s.ctx.record.finishedAt.isSome = true ∧
    s.store = some s.ctx.record

/-- The job reads on, but its stream raises instead of ending. -/
def ReadsFault (J : JobRunner R) (s : State J.concurrency) (a : Action R J.concurrency) : Prop :=
  a = .runner false ∧ s.phase = .reading ∧ s.rest = [] ∧ J.input.raises = true

/-- Computing the cost raises in the tail of `run`. -/
def TailRaises {n : ℕ} (s : State n) (a : Action R n) : Prop :=
  a = .runner true ∧ s.phase = .closingSink none

/-- Computing the cost raises, in a spend check or in the tail. -/
def CostRaises (J : JobRunner R) (s : State J.concurrency) (a : Action R J.concurrency) : Prop :=
  a.raisesInCheck = true ∨ TailRaises s a

def Untroubled (J : JobRunner R) (s : State J.concurrency) (a : Action R J.concurrency) : Prop :=
  ¬ ReadsFault J s a ∧ ¬ CostRaises J s a

/-! ## The exception that `run` holds -/

def RunPhase.exc : RunPhase → Option RunException
  | .closing exc | .shuttingDown _ exc | .gathering exc | .closingSink exc | .finished exc => exc
  | _ => none

/-- The stream or the cost has raised, or a safety net has resolved an entry twice. -/
def Doomed {n : ℕ} (s : State n) : Prop :=
  s.phase.exc = some .ingest ∨ s.phase.exc = some .cost ∨
    s.ctx.record.counts.pending < (unresolved s).card

theorem reachable_pending_le {s : State J.concurrency} (h : Reachable J s) :
    s.ctx.record.counts.pending ≤ (unresolved s).card := by
  refine h.invariant (I := fun s => s.ctx.record.counts.pending ≤ (unresolved s).card) ?_ ?_
  · intro now wall
    rw [unresolved_start]
    exact le_refl _
  · intro s a s' hreach hs ht
    have hstep := step_pending hreach ht
    split at hstep <;> omega

/-- Of these two, exactly the stream's and the cost's exceptions enter a phase. -/
theorem step_exc {s s' : State J.concurrency} {a : Action R J.concurrency}
    (h : JobTurn J s a s') :
    (s'.phase.exc = some .ingest ∨ s'.phase.exc = some .cost) ↔
      (s.phase.exc = some .ingest ∨ s.phase.exc = some .cost) ∨ ReadsFault J s a ∨
        TailRaises s a := by
  unfold ReadsFault TailRaises
  cases h with
  | tick _ => simp
  | cancel => simp
  | wrote _ => simp
  | timedOut _ => simp
  | worker _ _ => simp
  | begun hphase => simp [hphase, RunPhase.exc]
  | ended hphase hrest =>
    cases J.input.raises <;> simp [hphase, hrest, RunPhase.exc]
  | dropped hphase hrest _ => simp [hphase, hrest, RunPhase.exc]
  | ingested hphase hrest => simp [hphase, hrest, RunPhase.exc]
  | put hphase _ hnext => obtain rfl | rfl | rfl := hnext <;> simp [hphase, RunPhase.exc]
  | saved hphase hnext => obtain rfl | rfl := hnext <;> simp [hphase, RunPhase.exc]
  | closed hphase => simp [hphase, RunPhase.exc]
  | sentinel hphase _ => simp [hphase, RunPhase.exc]
  | gathering hphase => simp [hphase, RunPhase.exc]
  | gathered hphase _ => simp [hphase, RunPhase.exc]
  | reraised hphase => simp [hphase, RunPhase.exc]
  | costRaised hphase _ => simp [hphase, RunPhase.exc]
  | finalized hphase => split <;> simp [hphase, RunPhase.exc]
  | savedFinal hphase => simp [hphase, RunPhase.exc]
  | @delivered raises hphase => cases raises <;> simp [hphase, RunPhase.exc]

theorem step_doomed {s s' : State J.concurrency} {a : Action R J.concurrency}
    (hreach : Reachable J s) (h : JobTurn J s a s') :
    Doomed s' ↔ Doomed s ∨ ¬ Untroubled J s a := by
  have hexc := step_exc h
  have hpending := step_pending hreach h
  have hle := reachable_pending_le hreach
  have hcount : s'.ctx.record.counts.pending < (unresolved s').card ↔
      s.ctx.record.counts.pending < (unresolved s).card ∨ a.raisesInCheck = true := by
    cases ha : a.raisesInCheck with
    | false =>
      rw [ha, if_neg Bool.false_ne_true] at hpending
      simp only [Bool.false_eq_true, or_false]
      omega
    | true =>
      rw [ha, if_pos rfl] at hpending
      simp only [or_true, iff_true]
      omega
  unfold Doomed Untroubled CostRaises
  rw [← or_assoc, hexc, hcount]
  have hlogic : ∀ held fault cost twice net : Prop,
      (held ∨ fault ∨ cost) ∨ twice ∨ net ↔ (held ∨ twice) ∨ ¬ (¬ fault ∧ ¬ (net ∨ cost)) := by
    grind
  rw [hlogic, or_assoc (a := s.phase.exc = some .ingest)]

/-- While it drains, `run` holds no exception but the stream's. -/
theorem reachable_held {s : State J.concurrency} (h : Reachable J s) :
    (∀ e, s.phase ≠ .finished e) → s.phase.exc = none ∨ s.phase.exc = some .ingest := by
  refine h.invariant (I := fun s => (∀ e, s.phase ≠ .finished e) →
    s.phase.exc = none ∨ s.phase.exc = some .ingest) ?_ ?_
  · exact fun now wall _ => Or.inl rfl
  · intro s a s' _ hs ht hopen
    cases ht with
    | tick _ => exact hs hopen
    | cancel => exact hs hopen
    | wrote _ => exact hs hopen
    | timedOut _ => exact hs hopen
    | worker _ _ => exact hs hopen
    | ended _ _ =>
      simp only [RunPhase.exc]
      split
      · exact Or.inr rfl
      · exact Or.inl rfl
    | put _ _ hnext => obtain rfl | rfl | rfl := hnext <;> exact Or.inl rfl
    | saved _ hnext => obtain rfl | rfl := hnext <;> exact Or.inl rfl
    | closed hphase =>
      rw [hphase] at hs
      exact hs fun e => nofun
    | sentinel hphase _ =>
      rw [hphase] at hs
      exact hs fun e => nofun
    | gathering hphase =>
      rw [hphase] at hs
      exact hs fun e => nofun
    | gathered hphase _ =>
      rw [hphase] at hs
      exact hs fun e => nofun
    | finalized _ =>
      split
      · exact Or.inl rfl
      · exact absurd (if_neg ‹_›) (hopen _)
    | reraised _ => exact absurd rfl (hopen _)
    | costRaised _ _ => exact absurd rfl (hopen _)
    | delivered _ => exact absurd rfl (hopen _)
    | _ => exact Or.inl rfl

theorem step_uncancelled {s s' : State J.concurrency} {a : Action R J.concurrency}
    (h : JobTurn J s a s') (hs : s.phase.exc ≠ some .cancelled) :
    s'.phase.exc ≠ some .cancelled := by
  cases h with
  | tick _ | cancel | wrote _ | timedOut _ | worker _ _ => exact hs
  | ended _ _ =>
    simp only [RunPhase.exc]
    split <;> exact nofun
  | put _ _ hnext => obtain rfl | rfl | rfl := hnext <;> exact nofun
  | saved _ hnext => obtain rfl | rfl := hnext <;> exact nofun
  | closed hphase | sentinel hphase _ | gathering hphase | gathered hphase _ | reraised hphase =>
    rw [hphase] at hs
    exact hs
  | finalized _ =>
    simp only
    split <;> exact nofun
  | @delivered raises _ => cases raises <;> exact nofun
  | _ => exact nofun

theorem reachable_uncancelled {s : State J.concurrency} (h : Reachable J s) :
    s.phase.exc ≠ some .cancelled :=
  h.invariant (I := fun s => s.phase.exc ≠ some .cancelled) (fun _ _ => nofun)
    fun _ _ _ _ hs ht => step_uncancelled ht hs

/-! ## The record and the store, phase by phase -/

/-- How far the finalisation is. -/
inductive Stage where
  | unfinalized
  | finalized
  | broken
  | saved

def RunPhase.stage : RunPhase → Stage
  | .savingFinal => .finalized
  | .finished (some .conservation) => .broken
  | .delivering | .finished none | .finished (some .webhook) => .saved
  | _ => .unfinalized

def Finalized (record : JobRecord) : Prop :=
  record.status.IsTerminal ∧ record.finishedAt.isSome = true

/-- No saved record has a terminal status yet. -/
def StoreOpen (store : Option JobRecord) : Prop := ∀ r ∈ store, ¬ r.status.IsTerminal

def StageFacts (stage : Stage) (record : JobRecord) (store : Option JobRecord) : Prop :=
  match stage with
  | .unfinalized => ¬ record.status.IsTerminal ∧ StoreOpen store
  | .finalized => Finalized record ∧ record.counts.conserved
  | .broken => Finalized record ∧ ¬ record.counts.conserved ∧ StoreOpen store
  | .saved => Finalized record ∧ record.counts.conserved ∧ store = some record

theorem finalStatus_isTerminal (ctx : WorkerContext) : (finalStatus ctx).IsTerminal := by
  unfold finalStatus
  simp only
  repeat' split
  all_goals decide

theorem running_open : ¬ JobStatus.running.IsTerminal := by decide

theorem settles_status (rows : List Row) (record : JobRecord) :
    (rows.foldl JobRecord.settle record).status = record.status :=
  settles_frame (fun record => record.status) (fun _ row => by cases row <;> rfl) rows record

theorem turn_not_returned {W : WorkerConfig R} {ctx ctx' : WorkerContext} {ws ws' : WorkerState}
    {input : WorkerInput R} {e : Effect} (hturn : Turn W ctx ctx' ws input ws' e) :
    ws ≠ .returned := by
  rintro rfl
  cases hturn

/-- After `gather` no worker moves. -/
theorem worker_not_drained {s : State J.concurrency} (hreach : Reachable J s)
    {ctx' : WorkerContext} {i : Fin J.concurrency} {ws' : WorkerState} {input : WorkerInput R}
    {e : Effect} (hturn : Turn J.toWorkerConfig s.ctx ctx' (s.workers i) input ws' e) :
    ¬ s.phase.Drained := by
  obtain ⟨ts, m, horder⟩ := reachable_orderly hreach
  exact fun hd => turn_not_returned hturn (horder.drained hd i)

theorem stage_of_not_drained {p : RunPhase} (h : ¬ p.Drained) : p.stage = .unfinalized := by
  cases p <;> first | rfl | exact absurd trivial h

theorem drained_of_stage {p : RunPhase} (h : p.stage ≠ .unfinalized) : p.Drained := by
  by_contra hopen
  exact h (stage_of_not_drained hopen)

/-- What a step does to the stage, the record and the store. -/
inductive StageTurn (J : JobRunner R) (s s' : State J.concurrency) : Prop
  | rests (hstage : s'.phase.stage = s.phase.stage) (hrecord : s'.ctx.record = s.ctx.record)
      (hstore : s'.store = s.store)
  | works (hstage : s.phase.stage = .unfinalized) (hstage' : s'.phase.stage = .unfinalized)
      (hstatus : s'.ctx.record.status = s.ctx.record.status ∨ s'.ctx.record.status = .running)
      (hestimate : s'.ctx.record.usage.estimatedCostUsd = s.ctx.record.usage.estimatedCostUsd)
      (hstore : s'.store = s.store ∨ s'.store = some s'.ctx.record)
  | finalizes (hstage : s.phase.stage = .unfinalized)
      (hstage' : s'.phase.stage =
        if (finalRecord J s.ctx).counts.conserved then .finalized else .broken)
      (hrecord : s'.ctx.record = finalRecord J s.ctx) (hstore : s'.store = s.store)
  | saves (hstage : s.phase.stage = .finalized) (hstage' : s'.phase.stage = .saved)
      (hrecord : s'.ctx.record = s.ctx.record) (hstore : s'.store = some s.ctx.record)

theorem settles_estimate (rows : List Row) (record : JobRecord) :
    (rows.foldl JobRecord.settle record).usage.estimatedCostUsd =
      record.usage.estimatedCostUsd :=
  settles_frame (fun record => record.usage.estimatedCostUsd) (fun _ row => by cases row <;> rfl)
    rows record

theorem step_stage {s s' : State J.concurrency} {a : Action R J.concurrency}
    (hreach : Reachable J s) (h : JobTurn J s a s') : StageTurn J s s' := by
  cases h with
  | tick _ => exact .rests rfl rfl rfl
  | cancel => exact .rests rfl rfl rfl
  | wrote _ => exact .rests rfl rfl rfl
  | timedOut _ => exact .rests rfl rfl rfl
  | @worker i input ctx' ws' e hturn hdoes =>
    have hstage := stage_of_not_drained (worker_not_drained hreach hturn)
    refine .works hstage hstage (Or.inl ?_) ?_ (Or.inl rfl)
    · rw [hdoes.record]
      exact settles_status e.rows s.ctx.record
    · rw [hdoes.record]
      exact settles_estimate e.rows s.ctx.record
  | begun hphase => exact .works (by rw [hphase]; rfl) rfl (Or.inr rfl) rfl (Or.inr rfl)
  | ended hphase _ => exact .rests (by rw [hphase]; rfl) rfl rfl
  | dropped hphase _ _ => exact .rests (by rw [hphase]; rfl) rfl rfl
  | ingested hphase _ => exact .works (by rw [hphase]; rfl) rfl (Or.inl rfl) rfl (Or.inl rfl)
  | put hphase _ hnext =>
    rcases hnext with rfl | rfl | rfl <;> exact .rests (by rw [hphase]; rfl) rfl rfl
  | saved hphase hnext =>
    have hstage : s.phase.stage = .unfinalized := by rw [hphase]; rfl
    rcases hnext with rfl | rfl <;> exact .works hstage rfl (Or.inl rfl) rfl (Or.inr rfl)
  | closed hphase => exact .rests (by rw [hphase]; rfl) rfl rfl
  | sentinel hphase _ => exact .rests (by rw [hphase]; rfl) rfl rfl
  | gathering hphase => exact .rests (by rw [hphase]; rfl) rfl rfl
  | gathered hphase _ => exact .rests (by rw [hphase]; rfl) rfl rfl
  | reraised hphase =>
    -- A stream's exception is the only one that is held here.
    have hheld := reachable_held hreach (by rw [hphase]; exact fun e => nofun)
    rw [hphase] at hheld
    rcases hheld with hexc | hexc <;> cases hexc
    exact .rests (by rw [hphase]; rfl) rfl rfl
  | costRaised hphase _ => exact .works (by rw [hphase]; rfl) rfl (Or.inl rfl) rfl (Or.inl rfl)
  | finalized hphase =>
    refine .finalizes (by rw [hphase]; rfl) ?_ rfl rfl
    by_cases hconserved : (finalRecord J s.ctx).counts.conserved
    · simp only [if_pos hconserved]
      rfl
    · simp only [if_neg hconserved]
      rfl
  | savedFinal hphase => exact .saves (by rw [hphase]; rfl) rfl rfl rfl
  | @delivered raises hphase =>
    cases raises <;> exact .rests (by rw [hphase]; rfl) rfl rfl

theorem step_stageFacts {s s' : State J.concurrency} (h : StageTurn J s s')
    (hs : StageFacts s.phase.stage s.ctx.record s.store) :
    StageFacts s'.phase.stage s'.ctx.record s'.store := by
  cases h with
  | rests hstage hrecord hstore =>
    rw [hstage, hrecord, hstore]
    exact hs
  | works hstage hstage' hstatus _ hstore =>
    rw [hstage] at hs
    rw [hstage']
    have hopen : ¬ s'.ctx.record.status.IsTerminal := by
      rcases hstatus with hstatus | hstatus <;> rw [hstatus]
      · exact hs.1
      · exact running_open
    refine ⟨hopen, ?_⟩
    rcases hstore with hstore | hstore <;> rw [hstore]
    · exact hs.2
    · exact fun r hr => Option.some.inj hr ▸ hopen
  | finalizes hstage hstage' hrecord hstore =>
    rw [hstage] at hs
    rw [hstage', hrecord, hstore]
    have hfinal : Finalized (finalRecord J s.ctx) := ⟨finalStatus_isTerminal s.ctx, rfl⟩
    split
    · exact ⟨hfinal, ‹_›⟩
    · exact ⟨hfinal, ‹_›, hs.2⟩
  | saves hstage hstage' hrecord hstore =>
    rw [hstage] at hs
    rw [hstage', hrecord, hstore]
    exact ⟨hs.1, hs.2, rfl⟩

theorem reachable_stageFacts {s : State J.concurrency} (h : Reachable J s) :
    StageFacts s.phase.stage s.ctx.record s.store := by
  refine h.invariant (I := fun s => StageFacts s.phase.stage s.ctx.record s.store) ?_
    fun s a s' hreach hs ht => step_stageFacts (step_stage hreach ht) hs
  intro now wall
  have hqueued : ¬ JobStatus.queued.IsTerminal := by decide
  exact ⟨hqueued, fun r hr => by cases hr⟩

/-! ## The law -/

/-- A drained job conserves its counters unless a safety net fired. -/
theorem conserved_iff {s : State J.concurrency} (h : Reachable J s) (hd : s.phase.Drained) :
    s.ctx.record.counts.conserved ↔ ¬ s.ctx.record.counts.pending < (unresolved s).card := by
  have htally := reachable_tallied h
  have hfailed := htally.failed
  have hsucceeded := htally.succeeded
  have hpending := htally.pending
  have hle := reachable_pending_le h
  rw [(drained_empty h hd).2, Multiset.card_zero] at hle ⊢
  unfold JobCounts.conserved
  omega

theorem terminalSaved_iff {s : State J.concurrency} (h : Reachable J s)
    {exc : Option RunException} (hfin : s.phase = .finished exc) :
    TerminalSaved s ↔ ¬ Doomed s := by
  have hfacts := reachable_stageFacts h
  have hconserved := conserved_iff h (by rw [hfin]; trivial)
  have htwice : s.ctx.record.counts.pending < (unresolved s).card ↔
      ¬ s.ctx.record.counts.conserved := by rw [hconserved, not_not]
  have hsaved : Finalized s.ctx.record → s.ctx.record.counts.conserved →
      s.store = some s.ctx.record → (exc ≠ some .ingest ∧ exc ≠ some .cost) →
      (TerminalSaved s ↔ ¬ Doomed s) := by
    intro hfinal hcounts hstore hexc
    refine iff_of_true ⟨hfinal.1, hfinal.2, hstore⟩ ?_
    unfold Doomed
    rw [htwice, hfin]
    exact fun hd => hd.elim hexc.1 fun hd => hd.elim hexc.2 fun hn => hn hcounts
  rw [hfin] at hfacts
  match exc with
  | none => exact hsaved hfacts.1 hfacts.2.1 hfacts.2.2 ⟨nofun, nofun⟩
  | some .webhook => exact hsaved hfacts.1 hfacts.2.1 hfacts.2.2 ⟨nofun, nofun⟩
  | some .ingest =>
    refine iff_of_false (fun ht => hfacts.1 ht.1) (not_not.mpr (Or.inl ?_))
    rw [hfin]
    rfl
  | some .cost =>
    refine iff_of_false (fun ht => hfacts.1 ht.1) (not_not.mpr (Or.inr (Or.inl ?_)))
    rw [hfin]
    rfl
  | some .conservation =>
    refine iff_of_false (fun ht => hfacts.2.2 _ ht.2.2 ht.1) (not_not.mpr (Or.inr (Or.inr ?_)))
    exact htwice.mpr hfacts.2.1
  | some .cancelled =>
    have hexc := reachable_uncancelled h
    rw [hfin] at hexc
    exact absurd rfl hexc

end BatchEngine.Core
