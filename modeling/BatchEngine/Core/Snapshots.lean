import BatchEngine.Core.ItemCap
import BatchEngine.Core.Lead
import BatchEngine.Core.SinkOrder

/-!
# What the saved records tell

`run` saves its record when it starts, at every 25th ingested entry and at the end. A saved
record is the record of an earlier moment; the counters of a job never go back, so it is
behind the live record, by a number of items that depends on the concurrency only.
-/

set_option autoImplicit false

namespace BatchEngine.Core

variable {R : Type*} {J : JobRunner R}

/-! ## No counter goes back -/

def JobStatus.rank : JobStatus → ℕ
  | .queued => 0
  | .running => 1
  | .succeeded | .partialResult | .failed | .cancelled => 2

/-- `record'` is not behind `record` in any counter, nor in its status. -/
structure JobRecord.Behind (record record' : JobRecord) : Prop where
  status : record.status.rank ≤ record'.status.rank
  ingested : record.counts.ingested ≤ record'.counts.ingested
  succeeded : record.counts.succeeded ≤ record'.counts.succeeded
  failed : record.counts.failed ≤ record'.counts.failed
  errors : ∀ c, (Dict.get? record.errorsByClass c).getD 0 ≤
    (Dict.get? record'.errorsByClass c).getD 0

namespace JobRecord.Behind

theorem refl (record : JobRecord) : record.Behind record :=
  ⟨le_rfl, le_rfl, le_rfl, le_rfl, fun _ => le_rfl⟩

theorem trans {a b c : JobRecord} (h : a.Behind b) (h' : b.Behind c) : a.Behind c where
  status := h.status.trans h'.status
  ingested := h.ingested.trans h'.ingested
  succeeded := h.succeeded.trans h'.succeeded
  failed := h.failed.trans h'.failed
  errors k := (h.errors k).trans (h'.errors k)

end JobRecord.Behind

theorem bump_ge (d : List (FailureClass × ℕ)) (c c' : FailureClass) :
    (Dict.get? d c').getD 0 ≤ (Dict.get? (Dict.bump d c) c').getD 0 := by
  unfold Dict.bump
  rw [Dict.get?_set]
  by_cases hc : c = c'
  · rw [if_pos hc, hc, Option.getD_some]
    exact Nat.le_succ _
  · rw [if_neg hc]

theorem behind_settle (record : JobRecord) (row : Row) : record.Behind (record.settle row) := by
  cases row with
  | result r => exact ⟨le_rfl, le_rfl, Nat.le_succ _, le_rfl, fun _ => le_rfl⟩
  | error e => exact ⟨le_rfl, le_rfl, le_rfl, Nat.le_succ _, bump_ge record.errorsByClass _⟩

theorem behind_settles (rows : List Row) (record : JobRecord) :
    record.Behind (rows.foldl JobRecord.settle record) := by
  induction rows generalizing record with
  | nil => exact .refl record
  | cons row rows ih => exact (behind_settle record row).trans (ih (record.settle row))

theorem rank_of_open {status : JobStatus} (h : ¬ status.IsTerminal) : status.rank ≤ 1 := by
  cases status with
  | queued => exact Nat.zero_le 1
  | running => exact le_rfl
  | _ => exact absurd (by decide) h

theorem rank_of_terminal {status : JobStatus} (h : status.IsTerminal) : status.rank = 2 := by
  rcases h with rfl | rfl | rfl | rfl <;> rfl

theorem step_behind {s s' : State J.concurrency} {a : Action R J.concurrency}
    (hreach : Reachable J s) (h : JobTurn J s a s') : s.ctx.record.Behind s'.ctx.record := by
  cases h with
  | @worker _ _ _ _ e _ hdoes =>
    rw [hdoes.record]
    have hsettled := behind_settles e.rows s.ctx.record
    exact ⟨hsettled.status, hsettled.ingested, hsettled.succeeded, hsettled.failed,
      hsettled.errors⟩
  | ingested _ _ => exact ⟨le_rfl, Nat.le_succ _, le_rfl, le_rfl, fun _ => le_rfl⟩
  | begun hphase =>
    have hopen : ¬ s.ctx.record.status.IsTerminal := by
      intro hterminal
      exact stage_of_terminal hreach hterminal (by rw [hphase]; rfl)
    exact ⟨rank_of_open hopen, le_rfl, le_rfl, le_rfl, fun _ => le_rfl⟩
  | finalized hphase =>
    have hterminal := rank_of_terminal (finalStatus_isTerminal s.ctx)
    have hbelow : s.ctx.record.status.rank ≤ 2 := by cases s.ctx.record.status <;> decide
    refine ⟨?_, le_rfl, le_rfl, le_rfl, fun _ => le_rfl⟩
    show s.ctx.record.status.rank ≤ (finalStatus s.ctx).rank
    omega
  | costRaised _ _ => exact ⟨le_rfl, le_rfl, le_rfl, le_rfl, fun _ => le_rfl⟩
  | _ => exact .refl _

theorem run_behind {actions : List (Action R J.concurrency)} {s s' : State J.concurrency}
    (h : Reachable J s) (hrun : Runs.exec (step J) s actions = some s') :
    s.ctx.record.Behind s'.ctx.record := by
  induction actions generalizing s with
  | nil =>
    obtain rfl := Option.some.inj hrun
    exact .refl _
  | cons a actions ih =>
    obtain ⟨t, ht, hrest⟩ := Runs.exec_cons_iff.mp hrun
    exact (step_behind h (step_turn ht)).trans (ih (h.step ht) hrest)

/-- Of two requests the later one never sees a smaller counter, nor an earlier status; and
once a request has seen a terminal status, every later one sees the same record. -/
theorem progress_monotone {actions : List (Action R J.concurrency)} {s s' : State J.concurrency}
    (h : Reachable J s) (hrun : Runs.exec (step J) s actions = some s') :
    s.ctx.record.Behind s'.ctx.record ∧
      (s.ctx.record.status.IsTerminal → s'.ctx.record = s.ctx.record) :=
  ⟨run_behind h hrun, fun hterminal => (run_final h (stage_of_terminal h hterminal) hrun).1⟩

theorem progress_monotone_twoRows :
    (twoRows.start 0 0).ctx.record.Behind twoRowsDrained.ctx.record :=
  (progress_monotone (reachable_start twoRows 0 0)
    (show Runs.exec (step twoRows) (twoRows.start 0 0) twoRowsRun = some twoRowsDrained from
      (Option.some_get _).symm)).1

/-! ## The record that was saved last -/

theorem step_store {s s' : State J.concurrency} {a : Action R J.concurrency}
    (h : JobTurn J s a s') : s'.store = s.store ∨ s'.store = some s'.ctx.record := by
  cases h with
  | begun _ => exact Or.inr rfl
  | saved _ _ => exact Or.inr rfl
  | savedFinal _ => exact Or.inr rfl
  | _ => exact Or.inl rfl

/-- The saved record was the live record at some moment of the run. -/
theorem stored_earlier {now wall : ℚ} {r : JobRecord} (actions : List (Action R J.concurrency)) :
    ∀ {s : State J.concurrency}, Runs.exec (step J) (J.start now wall) actions = some s →
      s.store = some r → ∃ before after t, actions = before ++ after ∧
        Runs.exec (step J) (J.start now wall) before = some t ∧
        Runs.exec (step J) t after = some s ∧ t.ctx.record = r := by
  induction actions using List.reverseRecOn with
  | nil =>
    intro s hrun hstore
    obtain rfl := Option.some.inj hrun
    cases hstore
  | append_singleton actions a ih =>
    intro s' hrun hstore
    obtain ⟨s, hs, hstep⟩ := Runs.exec_snoc.mp hrun
    rcases step_store (step_turn hstep) with hsame | hsaved
    · obtain ⟨before, after, t, rfl, hbefore, hafter, hrecord⟩ := ih hs (hsame ▸ hstore)
      refine ⟨before, after ++ [a], t, List.append_assoc _ _ _, hbefore, ?_, hrecord⟩
      exact Runs.exec_snoc.mpr ⟨s, hafter, hstep⟩
    · refine ⟨actions ++ [a], [], s', (List.append_nil _).symm, hrun, rfl, ?_⟩
      exact Option.some.inj (hsaved.symm.trans hstore)

/-- How the number of ingested entries goes on from the last save. -/
def Lag (phase : RunPhase) (saved ingested : ℕ) : Prop :=
  match phase with
  | .starting | .reading => saved = statusPersistEvery * (ingested / statusPersistEvery)
  | .putting _ | .saving =>
    0 < ingested ∧ saved = statusPersistEvery * ((ingested - 1) / statusPersistEvery)
  | _ => saved ≤ ingested ∧ ingested ≤ saved + statusPersistEvery

theorem Lag.le {phase : RunPhase} {saved ingested : ℕ} (h : Lag phase saved ingested) :
    saved ≤ ingested ∧ ingested ≤ saved + statusPersistEvery := by
  unfold Lag statusPersistEvery at h
  unfold statusPersistEvery
  cases phase <;> simp only at h <;> omega

/-- Behind the loop only the bounds matter. -/
theorem Lag.behind {phase phase' : RunPhase} {saved ingested : ℕ} (h : Lag phase saved ingested)
    (hphase' : ¬ phase'.Ingesting) : Lag phase' saved ingested := by
  have hle := h.le
  cases phase' with
  | starting | reading | putting _ | saving => exact absurd trivial hphase'
  | _ => exact hle

theorem lag_afterPut {n : ℕ} {s : State n} {saved : ℕ}
    (h : saved = statusPersistEvery * (s.ctx.record.counts.ingested / statusPersistEvery)) :
    Lag (afterPut J s) saved s.ctx.record.counts.ingested := by
  rcases afterPut_cases (J := J) s with hnext | hnext <;> rw [hnext]
  · exact h
  · exact (show Lag .reading _ _ from h).le

/-- What the phase says of the number of ingested entries. -/
def Due (phase : RunPhase) (ingested : ℕ) : Prop :=
  match phase with
  | .starting => ingested = 0
  | .saving => ingested % statusPersistEvery = 0
  | _ => True

theorem due_afterPut {n : ℕ} (s : State n) : Due (afterPut J s) s.ctx.record.counts.ingested := by
  rcases afterPut_cases (J := J) s with hnext | hnext <;> rw [hnext] <;> trivial

theorem reachable_due {s : State J.concurrency} (h : Reachable J s) :
    Due s.phase s.ctx.record.counts.ingested := by
  refine h.step_invariant (I := fun s => Due s.phase s.ctx.record.counts.ingested)
    (fun now wall => rfl) ?_
  intro s a s' hreach hs hstep
  cases step_turn hstep with
  | tick _ => exact hs
  | cancel => exact hs
  | wrote _ => exact hs
  | timedOut _ => exact hs
  | @worker i input ctx' ws' e hturn hdoes =>
    have hingested : ctx'.record.counts.ingested = s.ctx.record.counts.ingested := by
      rw [hdoes.record]
      exact settles_ingested _ _
    simp only [hingested]
    exact hs
  | @put t q next hphase hput hnext =>
    obtain ⟨hrecord, -, hnext⟩ := put_next hphase hstep
    simp only at hnext
    split at hnext
    · rename_i hdue
      rw [hnext]
      exact hdue
    · rw [hnext]
      exact due_afterPut _
  | saved hphase hnext =>
    rcases hnext with rfl | rfl <;> trivial
  | finalized hphase =>
    simp only
    split <;> trivial
  | _ => trivial

theorem reachable_lag {s : State J.concurrency} (h : Reachable J s) : ∀ r, s.store = some r →
    Lag s.phase r.counts.ingested s.ctx.record.counts.ingested := by
  refine h.step_invariant (I := fun s => ∀ r, s.store = some r →
    Lag s.phase r.counts.ingested s.ctx.record.counts.ingested) ?_ ?_
  · intro now wall r hr
    cases hr
  intro s a s' hreach hs hstep r hr
  have hdue := reachable_due hreach
  cases step_turn hstep with
  | tick _ => exact hs r hr
  | cancel => exact hs r hr
  | wrote _ => exact hs r hr
  | timedOut _ => exact hs r hr
  | @worker i input ctx' ws' e hturn hdoes =>
    have hlag := hs r hr
    have hingested : ctx'.record.counts.ingested = s.ctx.record.counts.ingested := by
      rw [hdoes.record]
      exact settles_ingested _ _
    simp only [hingested]
    exact hlag
  | begun hphase =>
    obtain rfl := Option.some.inj hr
    rw [hphase] at hdue
    have hnone : s.ctx.record.counts.ingested = 0 := hdue
    show s.ctx.record.counts.ingested = _ * (s.ctx.record.counts.ingested / _)
    rw [hnone]
    rfl
  | ended hphase _ => exact (hs r hr).behind id
  | dropped hphase _ _ => exact (hs r hr).behind id
  | ingested hphase _ =>
    have hlag := hs r hr
    rw [hphase] at hlag
    exact ⟨Nat.succ_pos _, hlag⟩
  | @put t q next hphase hput hnext =>
    have hlag := hs r hr
    rw [hphase] at hlag
    obtain ⟨hrecord, -, hnext⟩ := put_next hphase hstep
    simp only at hnext
    split at hnext
    · rw [hnext]
      exact hlag
    · rename_i hnot
      rw [hnext]
      apply lag_afterPut
      obtain ⟨hpos, hsaved⟩ := hlag
      show r.counts.ingested = statusPersistEvery * (s.ctx.record.counts.ingested / statusPersistEvery)
      unfold statusPersistEvery at hnot hsaved ⊢
      omega
  | saved hphase hnext =>
    obtain rfl := Option.some.inj hr
    rw [hphase] at hdue
    have hfull : s.ctx.record.counts.ingested =
        statusPersistEvery * (s.ctx.record.counts.ingested / statusPersistEvery) :=
      (Nat.mul_div_cancel' (Nat.dvd_of_mod_eq_zero hdue)).symm
    rcases hnext with rfl | rfl
    · exact hfull
    · exact ⟨le_rfl, Nat.le_add_right _ _⟩
  | closed hphase => exact (hs r hr).behind id
  | sentinel hphase _ => exact (hs r hr).behind id
  | gathering hphase => exact (hs r hr).behind id
  | gathered hphase _ => exact (hs r hr).behind id
  | reraised hphase => exact (hs r hr).behind id
  | costRaised hphase _ => exact (hs r hr).behind id
  | finalized hphase =>
    refine (show Lag _ _ s.ctx.record.counts.ingested from hs r hr).behind ?_
    simp only
    split <;> exact id
  | savedFinal hphase =>
    obtain rfl := Option.some.inj hr
    exact ⟨le_rfl, Nat.le_add_right _ _⟩
  | delivered hphase => exact (hs r hr).behind id

/-- Every ingested entry has its outcome, or is in one of the places that the concurrency
bounds. -/
theorem ingested_le_done {s : State J.concurrency} (h : Unraised J s) :
    s.ctx.record.counts.ingested ≤ done s.ctx.record.counts + (5 * J.concurrency + 1) ∧
      done s.ctx.record.counts ≤ s.ctx.record.counts.ingested := by
  have htally := reachable_tallied h.reachable
  have hsucceeded := htally.succeeded
  have hfailed := htally.failed
  have hpending := htally.pending
  have hunresolved := unraised_pending h
  have hcard := card_unresolved_le h.reachable
  unfold done
  omega

/-- The saved record is an earlier live one, and behind the live one by a bounded number of
ingested entries and outcomes. -/
theorem saved_lag {s : State J.concurrency} {r : JobRecord} (h : Unraised J s)
    (hstore : s.store = some r) :
    r.Behind s.ctx.record ∧ s.ctx.record.counts.ingested ≤ r.counts.ingested + 25 ∧
    done s.ctx.record.counts ≤ done r.counts + (5 * J.concurrency + 26) := by
  have hlag : s.ctx.record.counts.ingested ≤ r.counts.ingested + 25 :=
    (reachable_lag h.reachable r hstore).le.2
  have hnow := (ingested_le_done h).2
  obtain ⟨now, wall, actions, hrun, hquiet⟩ := h
  obtain ⟨before, after, t, rfl, hbefore, hafter, rfl⟩ := stored_earlier actions hrun hstore
  have ht : Unraised J t :=
    ⟨now, wall, before, hbefore, (List.forall_mem_append.mp hquiet).1⟩
  have hthen := (ingested_le_done ht).1
  exact ⟨run_behind ht.reachable hafter, hlag, by omega⟩

/-- As long as no spend check raises, what a restarted process finds in the store is the record
of an earlier moment of the run: behind the live record, by at most 25 ingested entries, and by
at most `5 * c + 26` outcomes. -/
theorem stored_recent {now wall : ℚ} {actions : List (Action R J.concurrency)}
    {s : State J.concurrency} {r : JobRecord}
    (hrun : Runs.exec (step J) (J.start now wall) actions = some s)
    (hquiet : ∀ a ∈ actions, a.raisesInCheck = false) (hstore : s.store = some r) :
    (∃ before after t, actions = before ++ after ∧
      Runs.exec (step J) (J.start now wall) before = some t ∧ t.ctx.record = r) ∧
    r.Behind s.ctx.record ∧ s.ctx.record.counts.ingested ≤ r.counts.ingested + 25 ∧
    done s.ctx.record.counts ≤ done r.counts + (5 * J.concurrency + 26) := by
  obtain ⟨before, after, t, hsplit, hbefore, -, hrecord⟩ := stored_earlier actions hrun hstore
  exact ⟨⟨before, after, t, hsplit, hbefore, hrecord⟩,
    saved_lag ⟨now, wall, actions, hrun, hquiet⟩ hstore⟩

/-- The record that `twoRowsDrained` left in the store is the one of its start. -/
theorem stored_recent_twoRows : ∃ r, twoRowsDrained.store = some r ∧
    r.Behind twoRowsDrained.ctx.record ∧ done twoRowsDrained.ctx.record.counts ≤ done r.counts + 36 := by
  have hrun : Runs.exec (step twoRows) (twoRows.start 0 0) twoRowsRun = some twoRowsDrained :=
    (Option.some_get _).symm
  have hsaved : twoRowsDrained.store = some { status := .running } := by decide +kernel
  obtain ⟨-, hbehind, -, hdone⟩ := stored_recent hrun twoRowsRun_quiet hsaved
  exact ⟨_, hsaved, hbehind, hdone⟩

/-! ## Before the first save -/

theorem reachable_unsaved {s : State J.concurrency} (h : Reachable J s) :
    s.store = none → s.phase = .starting := by
  refine h.invariant (I := fun s => s.store = none → s.phase = .starting) (fun _ _ _ => rfl) ?_
  intro s a s' _ hs ht hstore
  cases ht with
  | tick _ => exact hs hstore
  | cancel => exact hs hstore
  | wrote _ => exact hs hstore
  | timedOut _ => exact hs hstore
  | worker _ _ => exact hs hstore
  | begun _ => cases hstore
  | saved _ _ => cases hstore
  | savedFinal _ => cases hstore
  | _ =>
    -- a job that has saved nothing is in the phase `starting`, which these turns do not leave
    have hstarting := hs hstore
    simp_all only [reduceCtorEq]

/-- The row that the store has of a job: the saved record, or the created one. -/
theorem row_lag {s : State J.concurrency} (h : Unraised J s) :
    s.ctx.record.counts.ingested ≤ (s.store.getD {}).counts.ingested + 25 ∧
    done s.ctx.record.counts ≤ done (s.store.getD {}).counts + (5 * J.concurrency + 26) := by
  cases hstore : s.store with
  | some r => exact (saved_lag h hstore).2
  | none =>
    have hdue := reachable_due h.reachable
    rw [reachable_unsaved h.reachable hstore] at hdue
    have hnone : s.ctx.record.counts.ingested = 0 := hdue
    have hdone := (ingested_le_done h).2
    exact ⟨by omega, by omega⟩

end BatchEngine.Core
