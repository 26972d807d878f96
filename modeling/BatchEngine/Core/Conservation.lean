import BatchEngine.Core.Custody

/-!
# Conservation of work

Four invariants of a job: the counters are what the submitted rows say, `in_flight`
counts the open calls, the queue holds tickets ahead of sentinels, and the pool of
ingested entries is balanced.
-/

set_option autoImplicit false

namespace BatchEngine.Core

open BatchEngine.Providers

variable {R : Type*} {J : JobRunner R}

/-! ## The counters -/

def Row.usage : Row → UsageDelta
  | .result r => r.usage
  | .error _ => {}

/-- The counters of `record` are those of the submitted rows. -/
structure Tallied (record : JobRecord) (rows : List Row) : Prop where
  succeeded : record.counts.succeeded = rows.countP Row.isResult
  failed : record.counts.failed + rows.countP Row.isResult = rows.length
  pending : record.counts.pending = record.counts.ingested - rows.length
  errors : Dict.total record.errorsByClass = record.counts.failed
  inputTokens : record.usage.inputTokens = (rows.map fun row => row.usage.inputTokens).sum
  outputTokens : record.usage.outputTokens = (rows.map fun row => row.usage.outputTokens).sum

theorem Tallied.settle {record : JobRecord} {rows : List Row} (h : Tallied record rows)
    (row : Row) : Tallied (record.settle row) (rows ++ [row]) := by
  obtain ⟨hsucceeded, hfailed, hpending, herrors, hinput, houtput⟩ := h
  cases row with
  | result r =>
    constructor <;> simp only [JobRecord.settle, List.countP_append, List.length_append,
      List.map_append, List.sum_append, List.countP_singleton, List.length_singleton,
      List.map_singleton, List.sum_singleton, Row.isResult, Row.usage, ↓reduceIte]
    · omega
    · omega
    · push_cast
      omega
    · exact herrors
    · rw [hinput]
      rfl
    · rw [houtput]
      rfl
  | error e =>
    constructor <;> simp only [JobRecord.settle, bumpErrorClass, List.countP_append,
      List.length_append, List.map_append, List.sum_append, List.countP_singleton,
      List.length_singleton, List.map_singleton, List.sum_singleton, Row.isResult, Row.usage,
      Dict.total_bump, add_zero, Bool.false_eq_true, ↓reduceIte]
    · exact hsucceeded
    · omega
    · push_cast
      omega
    · rw [herrors]
    · exact hinput
    · exact houtput

theorem Tallied.settles {record : JobRecord} {rows : List Row} (h : Tallied record rows)
    (more : List Row) : Tallied (more.foldl JobRecord.settle record) (rows ++ more) := by
  induction more generalizing record rows with
  | nil => simpa using h
  | cons row more ih => simpa using ih (h.settle row)

/-- The rows determine nothing but the counters, the error classes and the tokens. -/
theorem Tallied.congr {record record' : JobRecord} {rows : List Row} (h : Tallied record rows)
    (hcounts : record'.counts.succeeded = record.counts.succeeded ∧
      record'.counts.failed = record.counts.failed)
    (hpending : record'.counts.pending - record'.counts.ingested =
      record.counts.pending - record.counts.ingested)
    (herrors : record'.errorsByClass = record.errorsByClass)
    (husage : record'.usage.inputTokens = record.usage.inputTokens ∧
      record'.usage.outputTokens = record.usage.outputTokens) : Tallied record' rows where
  succeeded := hcounts.1.trans h.succeeded
  failed := by rw [hcounts.2, h.failed]
  pending := by
    have := h.pending
    omega
  errors := by rw [herrors, hcounts.2, h.errors]
  inputTokens := husage.1.trans h.inputTokens
  outputTokens := husage.2.trans h.outputTokens

theorem step_tallied {s s' : State J.concurrency} {a : Action R J.concurrency}
    (hs : Tallied s.ctx.record s.ctx.sink.submitted) (h : JobTurn J s a s') :
    Tallied s'.ctx.record s'.ctx.sink.submitted := by
  cases h with
  | wrote hsink =>
    rw [ResultSink.submitted_writerStep hsink]
    exact hs
  | timedOut hsink =>
    rw [ResultSink.submitted_writerTimeout hsink]
    exact hs
  | worker _ hdoes =>
    rw [hdoes.submitted, hdoes.record]
    exact (hs.settles _).congr ⟨rfl, rfl⟩ rfl rfl ⟨rfl, rfl⟩
  | ingested _ _ =>
    refine hs.congr ⟨rfl, rfl⟩ ?_ rfl ⟨rfl, rfl⟩
    push_cast
    omega
  | gathered _ _ =>
    rw [ResultSink.submitted_close]
    exact hs
  | _ => exact hs.congr ⟨rfl, rfl⟩ rfl rfl ⟨rfl, rfl⟩

theorem reachable_tallied {s : State J.concurrency} (h : Reachable J s) :
    Tallied s.ctx.record s.ctx.sink.submitted := by
  refine h.invariant (I := fun s => Tallied s.ctx.record s.ctx.sink.submitted) ?_ ?_
  · intro now wall
    constructor <;> rfl
  · exact fun s a s' _ hs ht => step_tallied hs ht

/-! ## The open calls -/

def WorkerState.flight (ws : WorkerState) : ℤ := if ws.isCalling then 1 else 0

theorem turn_flight {W : WorkerConfig R} {ctx ctx' : WorkerContext} {ws ws' : WorkerState}
    {input : WorkerInput R} {e : Effect} (hturn : Turn W ctx ctx' ws input ws' e) :
    e.flight + ws.flight = ws'.flight := by
  cases hturn with
  | taken hloop => cases hloop <;> rfl
  | asked hloop => cases hloop <;> rfl
  | looped hloop => cases hloop <;> rfl
  | replied hcall =>
    cases hcall with
    | failed _ _ hretry => cases hretry <;> rfl
    | _ => rfl
  | resumed hretry => cases hretry <;> rfl
  | _ => rfl

theorem settles_inFlight (rows : List Row) (record : JobRecord) :
    (rows.foldl JobRecord.settle record).counts.inFlight = record.counts.inFlight :=
  settles_frame (fun record => record.counts.inFlight) (fun _ row => by cases row <;> rfl) rows record

theorem reachable_flying {s : State J.concurrency} (h : Reachable J s) :
    s.ctx.record.counts.inFlight = ∑ i, (s.workers i).flight := by
  refine h.invariant (I := fun s => s.ctx.record.counts.inFlight = ∑ i, (s.workers i).flight) ?_ ?_
  · intro now wall
    exact (Finset.sum_eq_zero fun i _ => rfl).symm
  · intro s a s' _ hs ht
    cases ht with
    | @worker i _ _ ws' e hturn hdoes =>
      have hsum := Runs.sum_update_add s.workers WorkerState.flight i ws'
      have hflight := turn_flight hturn
      show _ = ∑ j, (Function.update s.workers i ws' j).flight
      rw [hdoes.record]
      show (e.rows.foldl JobRecord.settle s.ctx.record).counts.inFlight + e.flight = _
      rw [settles_inFlight]
      omega
    | _ => exact hs

/-! ## Sentinels behind tickets -/

def WorkerState.gone (ws : WorkerState) : ℕ := if ws = .returned then 1 else 0

/-- The sentinels that `run` has yet to put. -/
def RunPhase.owed (n : ℕ) : RunPhase → ℕ
  | .shuttingDown left _ => left
  | .gathering _ | .closingSink _ | .savingFinal | .delivering | .finished _ => 0
  | _ => n

/-- Every ticket in the queue is ahead of every sentinel, there is one sentinel for each
worker that has not returned, and a worker returns only behind the last ticket. -/
structure Orderly {n : ℕ} (s : State n) (ts : List Ticket) (m : ℕ) : Prop where
  queue : s.ctx.queue.items = ts.map .ticket ++ List.replicate m .shutdown
  sentinels : m + ∑ i, (s.workers i).gone + s.phase.owed n = n
  behind : 0 < ∑ i, (s.workers i).gone → ts = []
  drained : s.phase.Drained → ∀ i, s.workers i = .returned

theorem turn_order {W : WorkerConfig R} {ctx ctx' : WorkerContext} {ws ws' : WorkerState}
    {input : WorkerInput R} {e : Effect} (hturn : Turn W ctx ctx' ws input ws' e) :
    (e.pops = [.shutdown] ∧ ws.gone = 0 ∧ ws'.gone = 1) ∨
    (ws.gone = 0 ∧ ws'.gone = 0 ∧ (e.pops = [] ∨ ∃ t, e.pops = [.ticket t])) := by
  cases hturn with
  | shutdown => exact Or.inl ⟨rfl, rfl, rfl⟩
  | passed => exact Or.inr ⟨rfl, rfl, Or.inr ⟨_, rfl⟩⟩
  | taken hloop => cases hloop <;> exact Or.inr ⟨rfl, rfl, Or.inr ⟨_, rfl⟩⟩
  | asked hloop => cases hloop <;> exact Or.inr ⟨rfl, rfl, Or.inl rfl⟩
  | looped hloop => cases hloop <;> exact Or.inr ⟨rfl, rfl, Or.inl rfl⟩
  | replied hcall =>
    cases hcall with
    | failed _ _ hretry => cases hretry <;> exact Or.inr ⟨rfl, rfl, Or.inl rfl⟩
    | _ => exact Or.inr ⟨rfl, rfl, Or.inl rfl⟩
  | resumed hretry => cases hretry <;> exact Or.inr ⟨rfl, rfl, Or.inl rfl⟩
  | _ => exact Or.inr ⟨rfl, rfl, Or.inl rfl⟩

theorem worker_orderly {n : ℕ} {s : State n} {ts : List Ticket} {m : ℕ} (hs : Orderly s ts m)
    {W : WorkerConfig R} {ctx' : WorkerContext} {i : Fin n} {ws' : WorkerState}
    {input : WorkerInput R} {e : Effect} (hturn : Turn W s.ctx ctx' (s.workers i) input ws' e)
    (hdoes : Does s.ctx ctx' e) :
    ∃ ts m, Orderly { s with ctx := ctx', workers := Function.update s.workers i ws' } ts m := by
  obtain ⟨hqueue, hsentinels, hbehind, hdrained⟩ := hs
  have hsum := Runs.sum_update_add s.workers WorkerState.gone i ws'
  have hitems := hdoes.queue
  have hnotDrained : (s.workers i).gone = 0 → ¬ s.phase.Drained := by
    intro hgone hd
    rw [hdrained hd i] at hgone
    exact absurd hgone (by decide)
  rw [hqueue] at hitems
  rcases turn_order hturn with ⟨hpops, hold, hnew⟩ | ⟨hold, hnew, hpops⟩
  · -- a sentinel at the head: no ticket was left
    rw [hpops] at hitems
    rcases ts with _ | ⟨t, ts⟩
    · rcases m with _ | m
      · cases hitems
      · refine ⟨[], m, (List.cons.inj hitems).2.symm, ?_, fun _ => rfl, ?_⟩
        · show m + ∑ j, (Function.update s.workers i ws' j).gone + s.phase.owed n = n
          omega
        · exact fun hd => absurd hd (hnotDrained hold)
    · cases hitems
  · have hgone : ∑ j, (Function.update s.workers i ws' j).gone = ∑ j, (s.workers j).gone := by
      omega
    rcases hpops with hpops | ⟨t, hpops⟩
    · rw [hpops] at hitems
      refine ⟨ts, m, hitems.symm, ?_, ?_, fun hd => absurd hd (hnotDrained hold)⟩
      · rw [hgone]; exact hsentinels
      · rw [hgone]; exact hbehind
    · rw [hpops] at hitems
      rcases ts with _ | ⟨t', ts⟩
      · rcases m with _ | m <;> cases hitems
      · refine ⟨ts, m, (List.cons.inj hitems).2.symm, ?_, ?_, fun hd => absurd hd (hnotDrained hold)⟩
        · rw [hgone]; exact hsentinels
        · rw [hgone]
          intro hpos
          cases hbehind hpos

/-- A step that leaves queue, workers and sentinels alone. -/
theorem Orderly.still {n : ℕ} {s s' : State n} {ts : List Ticket} {m : ℕ} (hs : Orderly s ts m)
    (hqueue : s'.ctx.queue.items = s.ctx.queue.items) (hworkers : s'.workers = s.workers)
    (howed : s'.phase.owed n = s.phase.owed n)
    (hdrained : s'.phase.Drained → s.phase.Drained ∨ ∀ i, s.workers i = .returned) :
    Orderly s' ts m where
  queue := hqueue.trans hs.queue
  sentinels := by rw [hworkers, howed]; exact hs.sentinels
  behind := by rw [hworkers]; exact hs.behind
  drained := by
    intro hd
    rw [hworkers]
    exact (hdrained hd).elim hs.drained id

theorem step_orderly {s s' : State J.concurrency} {a : Action R J.concurrency}
    (hs : ∃ ts m, Orderly s ts m) (h : JobTurn J s a s') : ∃ ts m, Orderly s' ts m := by
  obtain ⟨ts, m, hs⟩ := hs
  cases h with
  | worker hturn hdoes => exact worker_orderly hs hturn hdoes
  | tick _ => exact ⟨ts, m, hs.still rfl rfl rfl Or.inl⟩
  | cancel => exact ⟨ts, m, hs.still rfl rfl rfl Or.inl⟩
  | wrote _ => exact ⟨ts, m, hs.still rfl rfl rfl Or.inl⟩
  | timedOut _ => exact ⟨ts, m, hs.still rfl rfl rfl Or.inl⟩
  | begun hphase => exact ⟨ts, m, hs.still rfl rfl (by rw [hphase]; rfl) False.elim⟩
  | ended hphase _ => exact ⟨ts, m, hs.still rfl rfl (by rw [hphase]; rfl) False.elim⟩
  | dropped hphase _ _ => exact ⟨ts, m, hs.still rfl rfl (by rw [hphase]; rfl) False.elim⟩
  | ingested hphase _ => exact ⟨ts, m, hs.still rfl rfl (by rw [hphase]; rfl) False.elim⟩
  | @put t q next hphase hput hnext =>
    have hitems := (BoundedQueue.put_some hput).2.1
    have howed : s.phase.owed J.concurrency = J.concurrency := by rw [hphase]; rfl
    have hsentinels := hs.sentinels
    obtain rfl : m = 0 := by omega
    refine ⟨ts ++ [t], 0, ?_, ?_, fun hpos => ?_, fun hd => ?_⟩
    · show q.items = _
      rw [hitems, hs.queue]
      simp
    · show 0 + ∑ i, (s.workers i).gone + next.owed J.concurrency = J.concurrency
      have hnone : next.owed J.concurrency = J.concurrency := by
        rcases hnext with rfl | rfl | rfl <;> rfl
      omega
    · change 0 < ∑ i, (s.workers i).gone at hpos
      omega
    · rcases hnext with rfl | rfl | rfl <;> exact hd.elim
  | @saved next hphase hnext =>
    refine ⟨ts, m, hs.still rfl rfl ?_ ?_⟩
    · rw [hphase]
      rcases hnext with rfl | rfl <;> rfl
    · rcases hnext with rfl | rfl <;> exact False.elim
  | closed hphase => exact ⟨ts, m, hs.still rfl rfl (by rw [hphase]; rfl) False.elim⟩
  | @sentinel left exc q hphase hput =>
    have hitems := (BoundedQueue.put_some hput).2.1
    have howed : s.phase.owed J.concurrency = left + 1 := by rw [hphase]; rfl
    have hsentinels := hs.sentinels
    refine ⟨ts, m + 1, ?_, ?_, hs.behind, False.elim⟩
    · show q.items = _
      rw [hitems, hs.queue, List.append_assoc, List.replicate_succ']
    · show m + 1 + ∑ i, (s.workers i).gone + left = J.concurrency
      omega
  | gathering hphase => exact ⟨ts, m, hs.still rfl rfl (by rw [hphase]; rfl) False.elim⟩
  | gathered hphase hall =>
    exact ⟨ts, m, hs.still rfl rfl (by rw [hphase]; rfl) fun _ => Or.inr hall⟩
  | reraised hphase =>
    exact ⟨ts, m, hs.still rfl rfl (by rw [hphase]; rfl) fun _ => Or.inl (by rw [hphase]; trivial)⟩
  | costRaised hphase _ =>
    exact ⟨ts, m, hs.still rfl rfl (by rw [hphase]; rfl) fun _ => Or.inl (by rw [hphase]; trivial)⟩
  | finalized hphase _ =>
    refine ⟨ts, m, hs.still rfl rfl ?_ fun _ => Or.inl (by rw [hphase]; trivial)⟩
    rw [hphase]
    split <;> rfl
  | savedFinal hphase =>
    exact ⟨ts, m, hs.still rfl rfl (by rw [hphase]; rfl) fun _ => Or.inl (by rw [hphase]; trivial)⟩
  | delivered hphase =>
    exact ⟨ts, m, hs.still rfl rfl (by rw [hphase]; rfl) fun _ => Or.inl (by rw [hphase]; trivial)⟩

theorem reachable_orderly {s : State J.concurrency} (h : Reachable J s) :
    ∃ ts m, Orderly s ts m := by
  refine h.invariant (I := fun s => ∃ ts m, Orderly s ts m) ?_ ?_
  · intro now wall
    have hnone : ∑ i, ((J.start now wall).workers i).gone = 0 := Finset.sum_eq_zero fun i _ => rfl
    refine ⟨[], 0, rfl, ?_, fun _ => rfl, False.elim⟩
    rw [hnone]
    exact Nat.zero_add _
  · exact fun s a s' _ hs ht => step_orderly hs ht

/-- After `gather` nothing is queued and nothing is held. -/
theorem drained_empty {s : State J.concurrency} (h : Reachable J s) (hd : s.phase.Drained) :
    s.ctx.queue.items = [] ∧ unresolved s = 0 := by
  obtain ⟨ts, m, hs⟩ := reachable_orderly h
  have hall := hs.drained hd
  have hgone : ∑ i, (s.workers i).gone = J.concurrency := by
    simp [hall, WorkerState.gone]
  have hpos := J.concurrency_pos
  have hsentinels := hs.sentinels
  have hqueue := hs.queue
  obtain rfl : m = 0 := by omega
  rw [hs.behind (by omega)] at hqueue
  refine ⟨hqueue, ?_⟩
  have hheld : s.phase.held = 0 := by
    cases hp : s.phase <;> first | rfl | (rw [hp] at hd; exact hd.elim)
  have hhands : ∑ i, (s.workers i).held = 0 :=
    Finset.sum_eq_zero fun i _ => by rw [hall i]; rfl
  unfold unresolved
  rw [hheld, hhands, hqueue]
  rfl

/-! ## The pool of entries -/

def RunPhase.Ingesting : RunPhase → Prop
  | .starting | .reading | .putting _ | .saving => True
  | _ => False

/-- Until ingestion stops, the stream still holds exactly what was not ingested. -/
theorem reachable_upcoming {s : State J.concurrency} (h : Reachable J s) :
    s.phase.Ingesting → s.rest = J.input.entries.drop s.ctx.record.counts.ingested := by
  refine h.invariant (I := fun s => s.phase.Ingesting →
    s.rest = J.input.entries.drop s.ctx.record.counts.ingested) ?_ ?_
  · intro now wall _
    rfl
  · intro s a s' _ hs ht
    cases ht with
    | worker _ hdoes =>
      intro hp
      rw [hdoes.record]
      exact (hs hp).trans (congrArg J.input.entries.drop (settles_ingested _ _).symm)
    | ingested hphase hrest =>
      intro _
      have hdrop := hs (by rw [hphase]; trivial)
      rw [hrest] at hdrop
      show _ = J.input.entries.drop (s.ctx.record.counts.ingested + 1)
      rw [← List.drop_drop, ← hdrop]
      rfl
    | @put t q next hphase hput hnext => exact fun _ => hs (by rw [hphase]; trivial)
    | @saved next hphase hnext => exact fun _ => hs (by rw [hphase]; trivial)
    | begun hphase => exact fun _ => hs (by rw [hphase]; trivial)
    | tick _ => exact hs
    | cancel => exact hs
    | wrote _ => exact hs
    | timedOut _ => exact hs
    | finalized _ _ =>
      intro hp
      change RunPhase.Ingesting (if _ then _ else _) at hp
      split at hp <;> exact hp.elim
    | _ => exact False.elim

/-- The ids of the ingested entries, of those unresolved and of the rows. -/
def idPool (s : State J.concurrency) : Custody.Pool String where
  admitted := (J.input.entries.take s.ctx.record.counts.ingested).map Entry.itemId
  held := (unresolved s).map fun t => t.entry.itemId
  settled := s.ctx.sink.submitted.map Row.itemId

theorem coe_snoc {α : Type*} (xs : List α) (x : α) :
    ((xs ++ [x] : List α) : Multiset α) = x ::ₘ (xs : Multiset α) := by
  rw [← Multiset.coe_add, Multiset.coe_singleton, add_comm, Multiset.singleton_add]

/-- The job refines the pool, unless a check raises: its steps admit one entry, settle one, or
neither. -/
theorem step_refines_pool {s s' : State J.concurrency} {a : Action R J.concurrency}
    (hs : Reachable J s) (h : JobTurn J s a s') (hquiet : a.raisesInCheck = false) :
    Custody.Move (idPool s) (idPool s') := by
  have hcustody := step_custody h
  rw [hquiet] at hcustody
  unfold idPool
  cases hcustody with
  | settled hsettles hsubmitted hunresolved hingested =>
    rw [hingested, hsubmitted]
    cases hsettles with
    | keeps =>
      rw [zero_add] at hunresolved
      rw [hunresolved, List.append_nil]
      exact .stay _
    | @once t row hid =>
      rw [List.map_append, List.map_singleton, coe_snoc, hid]
      refine .settle _ _ _ ?_
      rw [hunresolved, Multiset.map_add, Multiset.map_singleton, Multiset.singleton_add]
  | @admitted parsed rest hphase hrest _ hsubmitted hunresolved hingested =>
    have hdrop := reachable_upcoming hs (by rw [hphase]; trivial)
    rw [hrest] at hdrop
    have hnext : J.input.entries[s.ctx.record.counts.ingested]? = some parsed := by
      rw [← List.head?_drop, ← hdrop]
      rfl
    rw [hsubmitted, hunresolved, hingested, Multiset.map_cons, List.take_add_one, hnext,
      List.map_append]
    simp only [Option.toList_some, List.map_singleton, coe_snoc]
    exact .enter _ _

theorem unresolved_start (J : JobRunner R) (now wall : ℚ) : unresolved (J.start now wall) = 0 := by
  have hhands : ∑ i, ((J.start now wall).workers i).held = 0 := Finset.sum_eq_zero fun i _ => rfl
  unfold unresolved
  rw [hhands]
  rfl

theorem unraised_balanced {s : State J.concurrency} (h : Unraised J s) :
    Custody.Balanced (idPool s) := by
  refine h.invariant (I := fun s => Custody.Balanced (idPool s)) ?_ ?_
  · intro now wall
    unfold Custody.Balanced idPool
    rw [unresolved_start]
    rfl
  · exact fun s a s' hraised hs hquiet ht =>
      (step_refines_pool hraised.reachable ht hquiet).balanced hs

/-- `pending` counts the unresolved entries, less one for each time the safety net of a
worker fired. -/
theorem step_pending {s s' : State J.concurrency} {a : Action R J.concurrency}
    (hs : Reachable J s) (h : JobTurn J s a s') :
    ((unresolved s').card : ℤ) - s'.ctx.record.counts.pending =
      (unresolved s).card - s.ctx.record.counts.pending + (if a.raisesInCheck then 1 else 0) := by
  have htally := reachable_tallied hs
  have hpending := htally.pending
  have hpending' := (step_tallied htally h).pending
  have hcustody := step_custody h
  generalize a.raisesInCheck = raises at hcustody ⊢
  cases hcustody with
  | settled hsettles hsubmitted hunresolved hingested =>
    rw [hsubmitted, List.length_append, hingested] at hpending'
    rw [hunresolved, Multiset.card_add]
    cases hsettles with
    | keeps =>
      simp only [List.length_nil, Multiset.card_zero, Bool.false_eq_true, ↓reduceIte] at hpending' ⊢
      omega
    | once hid =>
      simp only [List.length_singleton, Multiset.card_singleton, Bool.false_eq_true,
        ↓reduceIte] at hpending' ⊢
      omega
    | twice hid hid' =>
      simp only [List.length_cons, List.length_nil, Multiset.card_singleton, ↓reduceIte]
        at hpending' ⊢
      omega
  | admitted hphase hrest hraises hsubmitted hunresolved hingested =>
    rw [hsubmitted, hingested] at hpending'
    rw [hunresolved, Multiset.card_cons, hraises]
    push_cast at hpending' ⊢
    omega

theorem unraised_pending {s : State J.concurrency} (h : Unraised J s) :
    s.ctx.record.counts.pending = (unresolved s).card := by
  refine h.invariant (I := fun s => s.ctx.record.counts.pending = (unresolved s).card) ?_ ?_
  · intro now wall
    rw [unresolved_start]
    rfl
  · intro s a s' hraised hs hquiet ht
    have hstep := step_pending hraised.reachable ht
    rw [hquiet, if_neg Bool.false_ne_true] at hstep
    omega

/-! ## The law -/

/-- After `gather` the counters are final. -/
theorem drained_counts {s : State J.concurrency} (h : Unraised J s) (hd : s.phase.Drained) :
    s.ctx.record.counts.pending = 0 ∧ s.ctx.record.counts.inFlight = 0 := by
  obtain ⟨ts, m, horder⟩ := reachable_orderly h.reachable
  have hidle : ∑ i, (s.workers i).flight = 0 :=
    Finset.sum_eq_zero fun i _ => by rw [horder.drained hd i]; rfl
  have hzero := unraised_pending h
  rw [(drained_empty h.reachable hd).2, Multiset.card_zero] at hzero
  exact ⟨hzero, (reachable_flying h.reachable).trans hidle⟩

/-- In every run in which no spend check raises, every ingested entry is counted exactly once
at every moment, and after the workers are drained it has exactly one row. -/
theorem work_conserved {s : State J.concurrency} (h : Unraised J s) :
    (s.ctx.record.counts.ingested : ℤ) =
      s.ctx.record.counts.succeeded + s.ctx.record.counts.failed + s.ctx.record.counts.pending ∧
    Dict.total s.ctx.record.errorsByClass = s.ctx.record.counts.failed ∧
    (s.phase.Drained →
      s.ctx.record.counts.pending = 0 ∧ s.ctx.record.counts.inFlight = 0 ∧
      s.ctx.queue.items = [] ∧
      (s.ctx.sink.submitted.map Row.itemId : Multiset String) =
        ((J.input.entries.take s.ctx.record.counts.ingested).map Entry.itemId : List String)) := by
  have htally := reachable_tallied h.reachable
  have hsucceeded := htally.succeeded
  have hfailed := htally.failed
  have hpending := htally.pending
  refine ⟨by omega, htally.errors, fun hd => ?_⟩
  obtain ⟨hempty, hnone⟩ := drained_empty h.reachable hd
  have hids := (unraised_balanced h).settled_eq
    (by simp only [idPool, hnone, Multiset.map_zero])
  obtain ⟨hzero, hidle⟩ := drained_counts h hd
  exact ⟨hzero, hidle, hempty, hids⟩

/-- A job of one prompt and one malformed row for two workers. -/
def twoRows : JobRunner CallResult where
  provider := scripted (1 / 5) (1 / 5)
  config := { concurrency := some 2 }
  input := { entries := [.item ⟨"a", "hello"⟩,
    .error ⟨"line-1", .invalidInput, .ingest "malformed JSON line", 1, none⟩] }

def twoRowsRun : List (Action CallResult 2) :=
  List.replicate 5 (.runner false) ++
  [.nth 0 .take, .nth 1 .take,
    .nth 0 (.reply (.returned { statusCode := 200, text := "hi", inputTokens := 3 }) 0 false)] ++
  List.replicate 5 (.runner false) ++ [.nth 0 .take, .nth 1 .take, .runner false]

def twoRowsDrained : State 2 :=
  (Runs.exec (step twoRows) (twoRows.start 0 0) twoRowsRun).get (by decide +kernel)

theorem twoRowsDrained_reachable : Reachable twoRows twoRowsDrained :=
  ⟨0, 0, twoRowsRun, (Option.some_get _).symm⟩

theorem twoRowsRun_quiet : ∀ a ∈ twoRowsRun, a.raisesInCheck = false := by decide +kernel

theorem twoRowsDrained_unraised : Unraised twoRows twoRowsDrained :=
  ⟨0, 0, twoRowsRun, (Option.some_get _).symm, twoRowsRun_quiet⟩

theorem work_conserved_twoRows :
    twoRowsDrained.phase.Drained ∧ twoRowsDrained.ctx.record.counts.pending = 0 := by
  have hdrained : twoRowsDrained.phase.Drained := by decide +kernel
  exact ⟨hdrained, ((work_conserved twoRowsDrained_unraised).2.2 hdrained).1⟩

def takeOne : Action CallResult 1 := .nth 0 .take

/-- The entries from number `k` on are read, queued and taken one at a time. -/
def readAndTake : ℕ → ℕ → List (Action CallResult 1)
  | _, 0 => []
  | k, left + 1 =>
    List.replicate (if k % 25 = 0 then 3 else 2) (.runner false) ++
      takeOne :: readAndTake (k + 1) left

/-- 49 malformed rows and two prompts. -/
def overflowing : JobRunner CallResult where
  provider := scripted (1 / 5) (1 / 5)
  config := { concurrency := some 1 }
  input :=
    { entries :=
        List.replicate 49 (.error ⟨"bad", .invalidInput, .ingest "malformed JSON line", 1, none⟩) ++
          [.item ⟨"a", "hello"⟩, .item ⟨"b", "hello"⟩] }

def answerBilling (tokens : ℤ) (raises : Bool) : Action CallResult 1 :=
  .nth 0 (.reply (.returned { statusCode := 200, text := "hi", inputTokens := tokens }) 0 raises)

/-- The first answer, the 50th item done, bills more tokens than any float holds. The second
takes them back. -/
def overflowingRun : List (Action CallResult 1) :=
  .runner false :: readAndTake 1 49 ++ List.replicate 7 (.runner false) ++
  [takeOne, answerBilling (10 ^ 400) true, takeOne, answerBilling (-10 ^ 400) false,
    .runner false, takeOne] ++ List.replicate 2 (.runner false)

def overflowingDrained : State overflowing.concurrency :=
  (Runs.exec (step overflowing) (overflowing.start 0 0) overflowingRun).get (by decide +kernel)

theorem overflowingDrained_reachable : Reachable overflowing overflowingDrained :=
  ⟨0, 0, overflowingRun, (Option.some_get _).symm⟩

/-- No cost method raises, but the spend check does: the one prompt has two rows. -/
theorem work_doubled : ∃ (J : JobRunner CallResult) (s : State J.concurrency),
    J.provider.costMayRaise = false ∧ Reachable J s ∧ s.phase.Drained ∧
      s.ctx.record.counts.pending = -1 ∧
      (J.input.entries.map Entry.itemId).count "a" = 1 ∧
      (s.ctx.sink.submitted.map Row.itemId).count "a" = 2 := by
  refine ⟨overflowing, overflowingDrained, rfl, overflowingDrained_reachable, ?_⟩
  decide +kernel

end BatchEngine.Core
