import BatchEngine.Core.Amplification
import Mathlib.Algebra.Order.BigOperators.Group.Finset
import Mathlib.Data.List.Forall2

/-!
# The order of the result rows

The entries are numbered as they are read, and the workers take them from the queue in
this order. A row of an entry overtakes only rows of entries in the hands of the other
workers, so it comes out less than `concurrency` places early. With one worker the rows
come out in the order of the file.
-/

set_option autoImplicit false

namespace BatchEngine.Core

open BatchEngine.Providers

variable {R : Type*} {J : JobRunner R}

theorem forall₂_of_mem {α β : Type*} {P Q : α → β → Prop} {as : List α} {bs : List β}
    (h : List.Forall₂ P as bs) (himp : ∀ a b, b ∈ bs → P a b → Q a b) : List.Forall₂ Q as bs := by
  induction h with
  | nil => exact .nil
  | cons hab _ ih =>
    refine .cons (himp _ _ List.mem_cons_self hab) (ih fun a b hb => ?_)
    exact himp a b (List.mem_cons_of_mem _ hb)

/-! ## Who holds which number -/

/-- The entries on their way to a worker, in order. -/
def RunPhase.blocked : RunPhase → List Ticket
  | .putting t => [t]
  | _ => []

def backlog {n : ℕ} (s : State n) : List Ticket := tickets s.ctx.queue.items ++ s.phase.blocked

/-- The numbers of the entries that workers have in hand. -/
def inHands {n : ℕ} (s : State n) : Multiset ℕ := (∑ i, (s.workers i).held).map Ticket.seq

theorem unresolved_eq {n : ℕ} (s : State n) :
    unresolved s = (backlog s : Multiset Ticket) + ∑ i, (s.workers i).held := by
  have hblocked : (s.phase.blocked : Multiset Ticket) = s.phase.held := by
    cases s.phase <;> rfl
  unfold unresolved backlog
  rw [← Multiset.coe_add, hblocked, add_left_comm, add_assoc]

/-- The row is one of entry `seq` of the file. -/
def RowOf (J : JobRunner R) (row : Row) (seq : ℕ) : Prop :=
  ∃ parsed, J.input.entries[seq]? = some parsed ∧ row.itemId = parsed.itemId

/-- `order` are the numbers of the entries that have their row, and the first `dealt`
entries have left the queue. -/
structure Ordered (s : State J.concurrency) (order : List ℕ) (dealt : ℕ) : Prop where
  hands : Custody.Dealt J.concurrency order (inHands s) dealt
  numbers : (backlog s).map Ticket.seq =
    List.range' dealt (s.ctx.record.counts.ingested - dealt)
  bound : dealt ≤ s.ctx.record.counts.ingested
  entries : ∀ t ∈ unresolved s, J.input.entries[t.seq]? = some t.entry
  rows : List.Forall₂ (RowOf J) s.ctx.sink.submitted order

/-! ## A worker's turn -/

/-- A worker that takes from the queue has its hands free. -/
theorem turn_hands {W : WorkerConfig R} {ctx ctx' : WorkerContext} {ws ws' : WorkerState}
    {input : WorkerInput R} {e : Effect} (hturn : Turn W ctx ctx' ws input ws' e) :
    (ws.held + (tickets e.pops : Multiset Ticket)).card ≤ 1 := by
  have hone : ∀ {ws : WorkerState} {pops : List Queued}, pops = [] →
      (ws.held + (tickets pops : Multiset Ticket)).card ≤ 1 := by
    rintro ws pops rfl
    unfold WorkerState.held
    cases ws.hand with
    | none => exact Nat.zero_le 1
    | some h => exact (Multiset.card_singleton _).le
  cases hturn with
  | shutdown => exact Nat.zero_le 1
  | passed => exact le_rfl
  | taken hloop => exact le_rfl
  | asked hloop => exact hone (loopTurn_settles hloop).1
  | looped hloop => exact hone (loopTurn_settles hloop).1
  | replied hcall => exact hone (callTurn_settles hcall).1
  | resumed hretry => exact hone (retryTurn_settles hretry).1
  | _ => exact hone rfl

/-- All hands before a turn, and what it takes, are at most one for each worker. -/
theorem card_hands_le {n : ℕ} {s : State n} {i : Fin n} {pops : List Queued}
    (hi : ((s.workers i).held + (tickets pops : Multiset Ticket)).card ≤ 1) :
    (∑ j, (s.workers j).held + (tickets pops : Multiset Ticket)).card ≤ n := by
  have hothers : (∑ j ∈ Finset.univ.erase i, (s.workers j).held).card ≤ n - 1 := by
    rw [Multiset.card_sum]
    calc ∑ j ∈ Finset.univ.erase i, (s.workers j).held.card
        ≤ ∑ _j ∈ Finset.univ.erase i, 1 := by
          apply Finset.sum_le_sum
          intro j _
          unfold WorkerState.held
          cases (s.workers j).hand with
          | none => exact Nat.zero_le 1
          | some h => exact (Multiset.card_singleton _).le
      _ = n - 1 := by simp
  have hpos : 0 < n := i.pos
  rw [← Finset.add_sum_erase _ _ (Finset.mem_univ i), add_right_comm, Multiset.card_add]
  omega

/-- What a turn takes from the queue is the next number, if anything. -/
theorem popped_numbers {s : State J.concurrency} {order : List ℕ} {dealt : ℕ}
    (hs : Ordered s order dealt) {pops items : List Queued}
    (hqueue : s.ctx.queue.items = pops ++ items) (hpops : (tickets pops).length ≤ 1) :
    ∃ dealt', dealt' ≤ s.ctx.record.counts.ingested ∧
      (tickets items ++ s.phase.blocked).map Ticket.seq =
        List.range' dealt' (s.ctx.record.counts.ingested - dealt') ∧
      Custody.Dealt J.concurrency order
        ((∑ i, (s.workers i).held + (tickets pops : Multiset Ticket)).map Ticket.seq) dealt' := by
  have hbound := hs.bound
  have hnumbers := hs.numbers
  have htickets : tickets s.ctx.queue.items = tickets pops ++ tickets items := by
    rw [hqueue, tickets_append]
  rw [backlog, htickets] at hnumbers
  cases hcase : tickets pops with
  | nil =>
    rw [hcase, List.nil_append] at hnumbers
    refine ⟨dealt, hbound, hnumbers, ?_⟩
    rw [Multiset.coe_nil, add_zero]
    exact hs.hands
  | cons t rest =>
    rw [hcase, List.length_cons] at hpops
    obtain rfl : rest = [] := List.length_eq_zero_iff.mp (by omega)
    rw [hcase, List.append_assoc, List.singleton_append, List.map_cons] at hnumbers
    have hpos : 0 < s.ctx.record.counts.ingested - dealt := by
      have hlength := congrArg List.length hnumbers
      rw [List.length_cons, List.length_range'] at hlength
      omega
    obtain ⟨left, hleft⟩ : ∃ left, s.ctx.record.counts.ingested - dealt = left + 1 :=
      ⟨_, (Nat.sub_add_cancel hpos).symm⟩
    rw [hleft, List.range'_succ] at hnumbers
    obtain ⟨hseq, hrest⟩ := List.cons.inj hnumbers
    have hleft' : s.ctx.record.counts.ingested - (dealt + 1) = left := by omega
    refine ⟨dealt + 1, by omega, by rw [hleft']; exact hrest, ?_⟩
    rw [Multiset.coe_singleton, Multiset.map_add, Multiset.map_singleton, hseq, add_comm,
      Multiset.singleton_add]
    exact hs.hands.deal

/-- The turn settles nothing, or one of the entries in hand or just taken. -/
inductive Grows (ticketsIn : Multiset Ticket) (rows : List Row) (order : List ℕ) :
    List ℕ → Prop
  | keeps (hrows : rows = []) : Grows ticketsIn rows order order
  | settles {t : Ticket} {row : Row} (ht : t ∈ ticketsIn) (hrows : rows = [row]) :
      Grows ticketsIn rows order (order ++ [t.seq])

theorem worker_ordered {s : State J.concurrency} {order : List ℕ} {dealt : ℕ}
    (hs : Ordered s order dealt) {i : Fin J.concurrency} {input : WorkerInput R}
    (hraises : (Action.worker i input).raisesInCheck = false) {ctx' : WorkerContext}
    {ws' : WorkerState} {e : Effect}
    (hturn : Turn J.toWorkerConfig s.ctx ctx' (s.workers i) input ws' e)
    (hdoes : Does s.ctx ctx' e) : ∃ order' dealt',
      Ordered (J := J) { s with ctx := ctx', workers := Function.update s.workers i ws' }
        order' dealt' ∧
      Grows ((s.workers i).held + (tickets e.pops : Multiset Ticket)) e.rows order order' ∧
      ∀ t ∈ (s.workers i).held + (tickets e.pops : Multiset Ticket), t.seq ∉ order := by
  obtain ⟨out, hsettles, hheld⟩ := turn_settles (i := i) hturn
  rw [hraises] at hsettles
  have hcard := turn_hands hturn
  have hsum := Runs.sum_update_add s.workers WorkerState.held i ws'
  have hqueue : (tickets s.ctx.queue.items : Multiset Ticket) =
      tickets e.pops + tickets ctx'.queue.items := by
    rw [hdoes.queue, tickets_append, Multiset.coe_add]
  have hunresolved : unresolved s = out +
      unresolved { s with ctx := ctx', workers := Function.update s.workers i ws' } := by
    unfold unresolved
    rw [Custody.exchange hqueue hsum hheld, add_left_comm]
  -- the hands before the turn, and what it takes, are the hands after it and what it settles
  have hhands : ∑ j, (s.workers j).held + (tickets e.pops : Multiset Ticket) =
      out + ∑ j, (Function.update s.workers i ws' j).held := by
    have hpopped : (tickets e.pops : Multiset Ticket) = tickets e.pops + 0 := (add_zero _).symm
    have hexchange := Custody.exchange hpopped hsum hheld
    rw [zero_add] at hexchange
    rw [← hexchange, add_comm]
  have hingested : ctx'.record.counts.ingested = s.ctx.record.counts.ingested := by
    rw [hdoes.record]
    exact settles_ingested _ _
  have hentries : ∀ t ∈ unresolved
      { s with ctx := ctx', workers := Function.update s.workers i ws' },
      J.input.entries[t.seq]? = some t.entry :=
    fun t ht => hs.entries t (hunresolved ▸ Multiset.mem_add.mpr (Or.inr ht))
  obtain ⟨dealt', hbound, hnumbers, hdealt⟩ :=
    popped_numbers hs hdoes.queue ((Multiset.card_le_card (Multiset.le_add_left _ _)).trans hcard)
  have hapart : ∀ t ∈ (s.workers i).held + (tickets e.pops : Multiset Ticket), t.seq ∉ order := by
    intro t ht
    apply hdealt.not_mem_of_out
    apply Multiset.mem_map_of_mem
    rw [← Finset.add_sum_erase _ _ (Finset.mem_univ i), add_right_comm]
    exact Multiset.mem_add.mpr (Or.inl ht)
  rw [hhands] at hdealt
  have hsubmitted := hdoes.submitted
  generalize e.rows = rows at hsettles hsubmitted
  cases hsettles with
  | keeps =>
    rw [zero_add] at hdealt
    refine ⟨order, dealt', ⟨hdealt, ?_, hingested ▸ hbound, hentries, ?_⟩, .keeps rfl, hapart⟩
    · rw [hingested]
      exact hnumbers
    · rw [hsubmitted, List.append_nil]
      exact hs.rows
  | @once t row hid =>
    rw [Multiset.singleton_add, Multiset.map_cons] at hdealt
    have hone : (t.seq ::ₘ (∑ j, (Function.update s.workers i ws' j).held).map Ticket.seq).card ≤
        J.concurrency := by
      rw [← Multiset.map_cons, Multiset.card_map, ← Multiset.singleton_add, ← hhands]
      exact card_hands_le hcard
    have hrow : RowOf J row t.seq :=
      ⟨t.entry, hs.entries t (hunresolved ▸ Multiset.mem_add.mpr
        (Or.inl (Multiset.mem_singleton_self t))), hid⟩
    have ht : t ∈ (s.workers i).held + (tickets e.pops : Multiset Ticket) := by
      rw [hheld]
      exact Multiset.mem_add.mpr (Or.inr (Multiset.mem_singleton_self t))
    refine ⟨order ++ [t.seq], dealt', ⟨hdealt.back hone, ?_, hingested ▸ hbound, hentries, ?_⟩,
      .settles ht rfl, hapart⟩
    · rw [hingested]
      exact hnumbers
    · rw [hsubmitted]
      exact List.rel_append hs.rows (.cons hrow .nil)

/-! ## One step of the job -/

/-- A step that moves no entry. -/
theorem Ordered.still {s s' : State J.concurrency} {order : List ℕ} {dealt : ℕ}
    (hs : Ordered s order dealt) (hwaiting : backlog s' = backlog s)
    (hworkers : s'.workers = s.workers)
    (hingested : s'.ctx.record.counts.ingested = s.ctx.record.counts.ingested)
    (hsubmitted : s'.ctx.sink.submitted = s.ctx.sink.submitted) : Ordered s' order dealt := by
  refine ⟨?_, ?_, ?_, ?_, ?_⟩
  · unfold inHands
    rw [hworkers]
    exact hs.hands
  · rw [hwaiting, hingested]
    exact hs.numbers
  · rw [hingested]
    exact hs.bound
  · rw [unresolved_eq, hwaiting, hworkers, ← unresolved_eq]
    exact hs.entries
  · rw [hsubmitted]
    exact hs.rows

/-- A step of the runner that moves no entry. -/
theorem Ordered.runner {s s' : State J.concurrency} {order : List ℕ} {dealt : ℕ}
    (hs : Ordered s order dealt) (hblocked : s.phase.blocked = [])
    (hblocked' : s'.phase.blocked = [])
    (hqueue : tickets s'.ctx.queue.items = tickets s.ctx.queue.items)
    (hworkers : s'.workers = s.workers)
    (hingested : s'.ctx.record.counts.ingested = s.ctx.record.counts.ingested)
    (hsubmitted : s'.ctx.sink.submitted = s.ctx.sink.submitted) : Ordered s' order dealt := by
  refine hs.still ?_ hworkers hingested hsubmitted
  unfold backlog
  rw [hblocked, hblocked', hqueue]

/-- The entry just read gets the next number. -/
theorem ingest_ordered {s s' : State J.concurrency} (hreach : Reachable J s) {order : List ℕ}
    {dealt : ℕ} (hs : Ordered s order dealt) {parsed : Entry} {rest : List Entry}
    (hphase : s.phase = .reading) (hrest : s.rest = parsed :: rest)
    (hphase' : s'.phase = .putting ⟨s.ctx.record.counts.ingested, parsed⟩)
    (hqueue : s'.ctx.queue = s.ctx.queue) (hworkers : s'.workers = s.workers)
    (hingested : s'.ctx.record.counts.ingested = s.ctx.record.counts.ingested + 1)
    (hsubmitted : s'.ctx.sink.submitted = s.ctx.sink.submitted) : Ordered s' order dealt := by
  have hdrop := reachable_upcoming hreach (by rw [hphase]; trivial)
  rw [hrest] at hdrop
  have hnext : J.input.entries[s.ctx.record.counts.ingested]? = some parsed := by
    rw [← List.head?_drop, ← hdrop]
    rfl
  have hwaiting : backlog s' = backlog s ++ [⟨s.ctx.record.counts.ingested, parsed⟩] := by
    unfold backlog
    rw [hphase, hphase', hqueue]
    show _ = tickets s.ctx.queue.items ++ [] ++ _
    rw [List.append_nil]
    rfl
  have hbound := hs.bound
  refine ⟨?_, ?_, ?_, ?_, ?_⟩
  · unfold inHands
    rw [hworkers]
    exact hs.hands
  · have hmore : s.ctx.record.counts.ingested + 1 - dealt =
        s.ctx.record.counts.ingested - dealt + 1 := by omega
    have hlast : dealt + (s.ctx.record.counts.ingested - dealt) = s.ctx.record.counts.ingested := by
      omega
    rw [hwaiting, List.map_append, hs.numbers, hingested, hmore, List.range'_1_concat, hlast]
    rfl
  · rw [hingested]
    omega
  · intro t ht
    rw [unresolved_eq, hwaiting, hworkers, ← Multiset.coe_add, add_right_comm, ← unresolved_eq] at ht
    rcases Multiset.mem_add.mp ht with ht | ht
    · exact hs.entries t ht
    · rw [Multiset.coe_singleton, Multiset.mem_singleton] at ht
      rw [ht]
      exact hnext
  · rw [hsubmitted]
    exact hs.rows

/-- Only a turn of a worker settles entries. -/
theorem quiet_ordered {s s' : State J.concurrency} {a : Action R J.concurrency}
    (hquiet : ∀ i input, a ≠ .worker i input) (hreach : Reachable J s) {order : List ℕ} {dealt : ℕ}
    (hs : Ordered s order dealt) (h : JobTurn J s a s') : Ordered s' order dealt := by
  cases h with
  | worker _ _ => exact absurd rfl (hquiet _ _)
  | ingested hphase hrest => exact ingest_ordered hreach hs hphase hrest rfl rfl rfl rfl rfl
  | tick _ => exact hs.still rfl rfl rfl rfl
  | cancel => exact hs.still rfl rfl rfl rfl
  | wrote hsink => exact hs.still rfl rfl rfl (ResultSink.submitted_writerStep hsink)
  | timedOut hsink => exact hs.still rfl rfl rfl (ResultSink.submitted_writerTimeout hsink)
  | @put t q next hphase hput hnext =>
    have hnone : next.blocked = [] := by obtain rfl | rfl | rfl := hnext <;> rfl
    refine hs.still ?_ rfl rfl rfl
    show tickets q.items ++ next.blocked = tickets s.ctx.queue.items ++ s.phase.blocked
    rw [(BoundedQueue.put_some hput).2.1, tickets_append, hnone, hphase, List.append_nil]
    rfl
  | sentinel hphase hput =>
    refine hs.runner (by rw [hphase]; rfl) rfl ?_ rfl rfl rfl
    rw [(BoundedQueue.put_some hput).2.1, tickets_append, tickets_shutdown, tickets_nil,
      List.append_nil]
  | saved hphase hnext =>
    refine hs.runner (by rw [hphase]; rfl) ?_ rfl rfl rfl rfl
    rcases hnext with rfl | rfl <;> rfl
  | finalized hphase _ =>
    refine hs.runner (by rw [hphase]; rfl) ?_ rfl rfl rfl rfl
    simp only
    split <;> rfl
  | gathered hphase _ =>
    exact hs.runner (by rw [hphase]; rfl) rfl rfl rfl rfl (ResultSink.submitted_close _)
  | begun hphase => exact hs.runner (by rw [hphase]; rfl) rfl rfl rfl rfl rfl
  | ended hphase _ => exact hs.runner (by rw [hphase]; rfl) rfl rfl rfl rfl rfl
  | dropped hphase _ _ => exact hs.runner (by rw [hphase]; rfl) rfl rfl rfl rfl rfl
  | closed hphase => exact hs.runner (by rw [hphase]; rfl) rfl rfl rfl rfl rfl
  | gathering hphase => exact hs.runner (by rw [hphase]; rfl) rfl rfl rfl rfl rfl
  | reraised hphase => exact hs.runner (by rw [hphase]; rfl) rfl rfl rfl rfl rfl
  | costRaised hphase _ => exact hs.runner (by rw [hphase]; rfl) rfl rfl rfl rfl rfl
  | savedFinal hphase => exact hs.runner (by rw [hphase]; rfl) rfl rfl rfl rfl rfl
  | delivered hphase => exact hs.runner (by rw [hphase]; rfl) rfl rfl rfl rfl rfl

theorem ordered_start (J : JobRunner R) (now wall : ℚ) :
    Ordered (J.start now wall) [] 0 := by
  refine ⟨⟨?_, ?_⟩, rfl, le_rfl, ?_, .nil⟩
  · have hnone : ∑ i, ((J.start now wall).workers i).held = 0 :=
      Finset.sum_eq_zero fun i _ => rfl
    unfold inHands
    rw [hnone]
    rfl
  · intro k a hk
    cases hk
  · intro t ht
    rw [unresolved_start] at ht
    exact absurd ht (Multiset.notMem_zero t)

theorem unraised_ordered {s : State J.concurrency} (h : Unraised J s) :
    ∃ order dealt, Ordered s order dealt := by
  refine h.invariant (I := fun s => ∃ order dealt, Ordered s order dealt) ?_ ?_
  · exact fun now wall => ⟨[], 0, ordered_start J now wall⟩
  · intro s a s' hraised hs hraises ht
    obtain ⟨order, dealt, hs⟩ := hs
    by_cases hworker : ∃ i input, a = .worker i input
    · obtain ⟨i, input, rfl⟩ := hworker
      cases ht with
      | worker hturn hdoes =>
        obtain ⟨order', dealt', hs', -, -⟩ := worker_ordered hs hraises hturn hdoes
        exact ⟨order', dealt', hs'⟩
    · push Not at hworker
      exact ⟨order, dealt, quiet_ordered hworker hraised.reachable hs ht⟩

/-! ## The law -/

/-- The ids of the first rows, when row `k` is one of entry `k`. -/
theorem ids_of_range {rows : List Row} {m : ℕ}
    (h : List.Forall₂ (RowOf J) rows (List.range m)) :
    rows.map Row.itemId = (J.input.entries.take rows.length).map Entry.itemId := by
  have hlength : rows.length = m := h.length_eq.trans List.length_range
  apply List.ext_getElem?
  intro k
  rw [List.getElem?_map, List.getElem?_map, List.getElem?_take]
  by_cases hk : k < rows.length
  · obtain ⟨parsed, hparsed, hid⟩ := h.get hk (by rw [List.length_range, ← hlength]; exact hk)
    simp only [List.get_eq_getElem, List.getElem_range] at hparsed hid
    rw [if_pos hk, List.getElem?_eq_getElem hk, hparsed]
    exact congrArg some hid
  · rw [if_neg hk, List.getElem?_eq_none (not_lt.mp hk)]
    rfl

/-- As long as no spend check raises, the rows submitted so far are of different entries, each
ingested, and none is `concurrency` or more places early. With one worker they are those of
the first entries, in the order of the file. -/
theorem rows_in_order {s : State J.concurrency} (h : Unraised J s) :
    (∃ order : List ℕ, List.Forall₂ (RowOf J) s.ctx.sink.submitted order ∧ order.Nodup ∧
      (∀ seq ∈ order, seq < s.ctx.record.counts.ingested) ∧
      ∀ k seq, order[k]? = some seq → seq < k + J.concurrency) ∧
    (J.concurrency = 1 → s.ctx.sink.submitted.map Row.itemId =
      (J.input.entries.take s.ctx.sink.submitted.length).map Entry.itemId) := by
  obtain ⟨order, dealt, hs⟩ := unraised_ordered h
  constructor
  · refine ⟨order, hs.rows, hs.hands.nodup, ?_, hs.hands.early⟩
    intro seq hseq
    exact (hs.hands.lt_of_mem hseq).trans_le hs.bound
  · intro hone
    have hrows := hs.rows
    rw [hs.hands.eq_range hone] at hrows
    exact ids_of_range hrows

/-- The second worker overtakes the first: the malformed row comes out before the prompt. -/
theorem rows_in_order_twoRows : ∃ order : List ℕ,
    List.Forall₂ (RowOf twoRows) twoRowsDrained.ctx.sink.submitted order ∧ order.Nodup ∧
      (∀ seq ∈ order, seq < twoRowsDrained.ctx.record.counts.ingested) ∧
      ∀ k seq, order[k]? = some seq → seq < k + 2 :=
  (rows_in_order twoRowsDrained_unraised).1

/-! ## Whose answer a row carries -/

/-- The answer that a turn brings, with the number of the entry that it is for. -/
def answerTo (W : WorkerConfig R) : WorkerState → WorkerInput R → List (ℕ × Outcome)
  | .calling h _, .reply r _ _ => [(h.seq, outcomeOf (W.provider.complete r))]
  | _, _ => []

def answered (J : JobRunner R) (s : State J.concurrency) (a : Action R J.concurrency)
    (_ : State J.concurrency) (answers : List (ℕ × Outcome)) : List (ℕ × Outcome) :=
  match a with
  | .worker i input => answers ++ answerTo J.toWorkerConfig (s.workers i) input
  | _ => answers

def lastAnswer (answers : List (ℕ × Outcome)) (seq : ℕ) : Option Outcome :=
  (answers.filter fun p => p.1 = seq).getLast?.map Prod.snd

theorem lastAnswer_self (answers : List (ℕ × Outcome)) (seq : ℕ) (outcome : Outcome) :
    lastAnswer (answers ++ [(seq, outcome)]) seq = some outcome := by
  simp [lastAnswer]

theorem lastAnswer_other (answers : List (ℕ × Outcome)) {seq seq' : ℕ} (outcome : Outcome)
    (h : seq ≠ seq') : lastAnswer (answers ++ [(seq, outcome)]) seq' = lastAnswer answers seq' := by
  simp [lastAnswer, h]

/-- A success row carries the last answer that its entry got, and counts the calls that were
made for it. -/
def Carries (answers : List (ℕ × Outcome)) (calls : List Call) (row : Row) (seq : ℕ) : Prop :=
  ∀ result, row = .result result → ∃ resp, lastAnswer answers seq = some (.response resp) ∧
    result.responseText = resp.text ∧ result.usage = ⟨resp.inputTokens, resp.outputTokens⟩ ∧
    result.attempt = sends calls seq

/-- A success row is written when the answer to the worker's own call is in. -/
theorem turn_result {W : WorkerConfig R} {ctx ctx' : WorkerContext} {ws ws' : WorkerState}
    {input : WorkerInput R} {e : Effect} (hturn : Turn W ctx ctx' ws input ws' e)
    {result : RowResult} (hrows : e.rows = [.result result]) :
    ∃ h start r u raises resp, ws = .calling h start ∧ input = .reply r u raises ∧ e.pops = [] ∧
      e.calls = [] ∧ outcomeOf (W.provider.complete r) = .response resp ∧
      result.responseText = resp.text ∧
      result.usage = ⟨resp.inputTokens, resp.outputTokens⟩ ∧ result.attempt = h.attempt := by
  have hloop : ∀ {h : InHand} {ws' : WorkerState} {e : Effect}, LoopTurn ctx h ws' e →
      e.rows = [.result result] → False := by
    intro h ws' e hturn hrows
    cases hturn <;> cases hrows
  have hretry : ∀ {h : InHand} {ws' : WorkerState} {e : Effect}, RetryTurn h ws' e →
      e.rows = [.result result] → False := by
    intro h ws' e hturn hrows
    cases hturn <;> cases hrows
  cases hturn with
  | replied hcall =>
    cases hcall with
    | succeeded hresp _ =>
      cases hrows
      exact ⟨_, _, _, _, _, _, rfl, rfl, rfl, rfl, hresp, rfl, rfl, rfl⟩
    | failed _ _ hturn => exact (hretry hturn hrows).elim
    | _ => cases hrows
  | taken hturn => exact (hloop hturn hrows).elim
  | asked hturn => exact (hloop hturn hrows).elim
  | looped hturn => exact (hloop hturn hrows).elim
  | resumed hturn => exact (hretry hturn hrows).elim
  | _ => cases hrows

/-- An answer is for the entry in the worker's hand. -/
theorem lastAnswer_apart {W : WorkerConfig R} {ws : WorkerState} {input : WorkerInput R}
    (answers : List (ℕ × Outcome)) {seq : ℕ} (hapart : ∀ t ∈ ws.held, t.seq ≠ seq) :
    lastAnswer (answers ++ answerTo W ws input) seq = lastAnswer answers seq := by
  have hnone : lastAnswer (answers ++ []) seq = lastAnswer answers seq := by rw [List.append_nil]
  cases ws with
  | calling h start =>
    cases input with
    | reply r u raises => exact lastAnswer_other _ _ (hapart h.ticket (mem_held rfl))
    | _ => exact hnone
  | _ => exact hnone

theorem worker_carries {s : State J.concurrency} (hreach : Reachable J s) {order : List ℕ}
    {dealt : ℕ} (hs : Ordered s order dealt) {answers : List (ℕ × Outcome)}
    (hcarries : List.Forall₂ (Carries answers s.ctx.calls) s.ctx.sink.submitted order)
    {i : Fin J.concurrency} {input : WorkerInput R}
    (hraises : (Action.worker i input).raisesInCheck = false) {ctx' : WorkerContext}
    {ws' : WorkerState} {e : Effect} (hturn : Turn J.toWorkerConfig s.ctx ctx' (s.workers i) input ws' e)
    (hdoes : Does s.ctx ctx' e) {s' : State J.concurrency} : ∃ order' dealt',
      Ordered (J := J) { s with ctx := ctx', workers := Function.update s.workers i ws' }
        order' dealt' ∧
      List.Forall₂ (Carries (answered J s (.worker i input) s' answers) ctx'.calls)
        ctx'.sink.submitted order' := by
  obtain ⟨order', dealt', hs', hgrows, hapart⟩ := worker_ordered hs hraises hturn hdoes
  have hattempted := (reachable_sent hreach).attempted i
  have hpops : ∀ t ∈ tickets e.pops, sends s.ctx.calls t.seq = 0 := by
    intro t ht
    apply (reachable_sent hreach).waiting t
    rw [hdoes.queue, tickets_append]
    exact Multiset.mem_add.mpr (Or.inr (List.mem_append_left _ ht))
  obtain ⟨-, hcalls⟩ := turn_attempted hturn hattempted hpops
  refine ⟨order', dealt', hs', ?_⟩
  -- the rows that were there are of entries that are in no hand
  have hold : List.Forall₂ (Carries (answered J s (.worker i input) s' answers) ctx'.calls)
      s.ctx.sink.submitted order := by
    refine forall₂_of_mem hcarries fun row seq hseq hrow result hresult => ?_
    obtain ⟨resp, hlast, htext, husage, hattempt⟩ := hrow result hresult
    refine ⟨resp, ?_, htext, husage, ?_⟩
    · have hother : ∀ t ∈ (s.workers i).held, t.seq ≠ seq :=
        fun t ht heq => hapart t (Multiset.mem_add.mpr (Or.inl ht)) (heq ▸ hseq)
      exact (lastAnswer_apart answers hother).trans hlast
    · have hnone : sends e.calls seq = 0 := by
        apply sends_eq_zero
        intro c hc heq
        obtain ⟨⟨t, ht, htseq⟩, -⟩ := hcalls c hc
        exact hapart t ht (htseq ▸ heq ▸ hseq)
      rw [hdoes.calls, sends_append, hnone, hattempt]
      rfl
  rw [hdoes.submitted]
  cases hgrows with
  | keeps hrows =>
    rw [hrows, List.append_nil]
    exact hold
  | @settles t row ht hrows =>
    rw [hrows]
    refine List.rel_append hold (.cons ?_ .nil)
    rintro result rfl
    obtain ⟨h, start, r, u, raises, resp, hws, rfl, hnopops, hnocalls, hresp, htext, husage,
      hattempt⟩ := turn_result hturn hrows
    rw [hws] at ht hattempted
    rw [hnopops] at ht
    obtain rfl : t = h.ticket := by
      rcases Multiset.mem_add.mp ht with ht | ht
      · exact Multiset.mem_singleton.mp ht
      · exact absurd ht List.not_mem_nil
    refine ⟨resp, ?_, htext, husage, ?_⟩
    · simp only [answered, hws, answerTo, hresp]
      exact lastAnswer_self answers h.seq _
    · rw [hattempt, hdoes.calls, hnocalls, List.append_nil]
      exact hattempted.1.symm

theorem quiet_answered {s s' : State J.concurrency} {a : Action R J.concurrency}
    (hquiet : ∀ i input, a ≠ .worker i input) (h : JobTurn J s a s')
    (answers : List (ℕ × Outcome)) : answered J s a s' answers = answers ∧
      s'.ctx.calls = s.ctx.calls ∧ s'.ctx.sink.submitted = s.ctx.sink.submitted := by
  cases h with
  | worker _ _ => exact absurd rfl (hquiet _ _)
  | wrote hsink => exact ⟨rfl, rfl, ResultSink.submitted_writerStep hsink⟩
  | timedOut hsink => exact ⟨rfl, rfl, ResultSink.submitted_writerTimeout hsink⟩
  | gathered _ _ => exact ⟨rfl, rfl, ResultSink.submitted_close _⟩
  | _ => exact ⟨rfl, rfl, rfl⟩

/-- No answer lands on the row of another entry: in every run in which no spend check raises,
each success row carries the last answer that was given to a call for its own entry, and its
`attempt` is the number of these calls. -/
theorem rows_carry_answers {now wall : ℚ} {actions : List (Action R J.concurrency)}
    {s : State J.concurrency} {answers : List (ℕ × Outcome)}
    (hquiet : ∀ a ∈ actions, a.raisesInCheck = false)
    (hrun : Runs.exec (Runs.withHistory (step J) (answered J)) (J.start now wall, []) actions =
      some (s, answers)) :
    ∃ order : List ℕ, order.Nodup ∧ List.Forall₂ (RowOf J) s.ctx.sink.submitted order ∧
      List.Forall₂ (Carries answers s.ctx.calls) s.ctx.sink.submitted order := by
  have hend : Reachable J s ∧ ∃ order dealt, Ordered s order dealt ∧
      List.Forall₂ (Carries answers s.ctx.calls) s.ctx.sink.submitted order := by
    refine Runs.exec_invariant (I := fun p : State J.concurrency × List (ℕ × Outcome) =>
      Reachable J p.1 ∧ ∃ order dealt, Ordered p.1 order dealt ∧
        List.Forall₂ (Carries p.2 p.1.ctx.calls) p.1.ctx.sink.submitted order)
      ?_ hquiet ⟨reachable_start J now wall, [], 0, ordered_start J now wall, .nil⟩ hrun
    intro p a q hraises hp hq
    obtain ⟨hreach, order, dealt, hs, hcarries⟩ := hp
    obtain ⟨hstep, hanswers⟩ := Runs.withHistory_some.mp hq
    refine ⟨hreach.step hstep, ?_⟩
    rw [hanswers]
    have hturn := step_turn hstep
    by_cases hworker : ∃ i input, a = .worker i input
    · obtain ⟨i, input, rfl⟩ := hworker
      generalize q.1 = s' at hturn
      cases hturn with
      | worker hturn hdoes => exact worker_carries hreach hs hcarries hraises hturn hdoes
    · push Not at hworker
      obtain ⟨hsame, hcalls, hsubmitted⟩ := quiet_answered hworker hturn p.2
      refine ⟨order, dealt, quiet_ordered hworker hreach hs hturn, ?_⟩
      rw [hsame, hcalls, hsubmitted]
      exact hcarries
  obtain ⟨-, order, dealt, hs, hcarries⟩ := hend
  exact ⟨order, hs.hands.nodup, hs.rows, hcarries⟩

def twoRowsAnswered : State 2 × List (ℕ × Outcome) :=
  (Runs.exec (Runs.withHistory (step twoRows) (answered twoRows)) (twoRows.start 0 0, [])
    twoRowsRun).get (by decide +kernel)

theorem rows_carry_answers_twoRows : twoRowsAnswered.2.length = 1 ∧ ∃ order : List ℕ,
    order.Nodup ∧ List.Forall₂ (RowOf twoRows) twoRowsAnswered.1.ctx.sink.submitted order ∧
      List.Forall₂ (Carries twoRowsAnswered.2 twoRowsAnswered.1.ctx.calls)
        twoRowsAnswered.1.ctx.sink.submitted order :=
  ⟨by decide +kernel,
    rows_carry_answers (J := twoRows) twoRowsRun_quiet (Option.some_get _).symm⟩

end BatchEngine.Core
