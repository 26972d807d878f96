import BatchEngine.Core.Conservation
import Mathlib.Algebra.Order.Floor.Semifield

/-!
# Retry amplification

A call needs a right: each ingested entry brings one, and each consumed retry another.
The first part counts rights and calls over the whole job, the second follows the
attempts of one entry.
-/

set_option autoImplicit false

namespace BatchEngine.Core

open BatchEngine.Providers

variable {R : Type*} {J : JobRunner R}

/-! ## The budget -/

theorem limit_eq {b : RetryBudget} (hfraction : b.fraction = 1 / 5) :
    b.limit = max 1 (b.totalItems / 5) := by
  rw [RetryBudget.limit, hfraction, mul_one_div]
  exact congrArg (max 1) (by simpa using Nat.floor_div_natCast (b.totalItems : ℚ) 5)

theorem reachable_totalItems {s : State J.concurrency} (h : Reachable J s) :
    s.ctx.retryBudget.fraction = 1 / 5 ∧
    s.ctx.retryBudget.totalItems = max 1 s.ctx.record.counts.ingested := by
  refine h.invariant (I := fun s => s.ctx.retryBudget.fraction = 1 / 5 ∧
    s.ctx.retryBudget.totalItems = max 1 s.ctx.record.counts.ingested) ?_ ?_
  · exact fun now wall => ⟨rfl, rfl⟩
  · intro s a s' _ hs ht
    cases ht with
    | @worker _ _ _ _ e _ hdoes =>
      have hingested := settles_ingested e.rows s.ctx.record
      refine ⟨hdoes.fraction.trans hs.1, ?_⟩
      rw [hdoes.record, hdoes.totalItems, hs.2]
      exact congrArg (max 1) hingested.symm
    | ingested _ _ => exact ⟨hs.1, (Nat.max_eq_right (Nat.succ_pos _)).symm⟩
    | _ => exact hs

/-- The limit that the budget has at this moment. -/
theorem reachable_limit {s : State J.concurrency} (h : Reachable J s) :
    s.ctx.retryBudget.limit = max 1 (s.ctx.record.counts.ingested / 5) := by
  obtain ⟨hfraction, htotal⟩ := reachable_totalItems h
  rw [limit_eq hfraction, htotal]
  omega

/-- The limit only grows, so what is within it stays within it. -/
theorem reachable_used {s : State J.concurrency} (h : Reachable J s) :
    s.ctx.controller.retriesIssued = s.ctx.retryBudget.used ∧
    s.ctx.retryBudget.used ≤ s.ctx.retryBudget.limit := by
  refine h.invariant (I := fun s => s.ctx.controller.retriesIssued = s.ctx.retryBudget.used ∧
    s.ctx.retryBudget.used ≤ s.ctx.retryBudget.limit) ?_ ?_
  · exact fun now wall => ⟨rfl, Nat.zero_le _⟩
  · intro s a s' hreach hs ht
    cases ht with
    | @worker _ _ _ _ e _ hdoes =>
      refine ⟨by rw [hdoes.retriesIssued, hdoes.used, hs.1], ?_⟩
      rw [hdoes.limit]
      by_cases hretry : 0 < e.retries
      · exact hdoes.withinLimit hretry
      · rw [hdoes.used]
        omega
    | ingested _ _ =>
      obtain ⟨hfraction, htotal⟩ := reachable_totalItems hreach
      refine ⟨hs.1, hs.2.trans ?_⟩
      rw [limit_eq hfraction, htotal]
      refine le_of_le_of_eq ?_ (limit_eq (b := { s.ctx.retryBudget with
        totalItems := s.ctx.record.counts.ingested + 1 }) hfraction).symm
      simp only
      omega
    | _ => exact hs

/-! ## Rights and calls -/

/-- The worker holds the right to one more call. -/
def WorkerState.mayCall : WorkerState → ℕ
  | .breakerWait _ _ | .acquiring _ _ | .backoff _ _ => 1
  | _ => 0

theorem loopTurn_rights {ctx : WorkerContext} {h : InHand} {ws' : WorkerState} {e : Effect}
    (hturn : LoopTurn ctx h ws' e) : e.calls.length + ws'.mayCall ≤ 1 := by
  cases hturn <;> simp [WorkerState.mayCall]

theorem retryTurn_rights {h : InHand} {ws' : WorkerState} {e : Effect}
    (hturn : RetryTurn h ws' e) : e.calls.length + ws'.mayCall ≤ e.retries := by
  cases hturn <;> simp [WorkerState.mayCall]

theorem callTurn_rights {W : WorkerConfig R} {ctx' : WorkerContext} {h : InHand}
    {outcome : Outcome} {raises : Bool} {ws' : WorkerState} {e : Effect}
    (hturn : CallTurn W ctx' h outcome raises ws' e) :
    e.calls.length + ws'.mayCall ≤ e.retries := by
  cases hturn with
  | failed _ _ hretry => exact retryTurn_rights hretry
  | _ => exact Nat.le_refl 0

/-- A worker calls on a right that it has, takes from the queue or buys with a retry. -/
theorem turn_rights {W : WorkerConfig R} {ctx ctx' : WorkerContext} {ws ws' : WorkerState}
    {input : WorkerInput R} {e : Effect} (hturn : Turn W ctx ctx' ws input ws' e) :
    e.calls.length + ws'.mayCall ≤ ws.mayCall + (tickets e.pops).length + e.retries := by
  cases hturn with
  | taken hloop => exact (loopTurn_rights hloop).trans (by simp [WorkerState.mayCall])
  | asked hloop => exact (loopTurn_rights hloop).trans (by simp [WorkerState.mayCall, add_assoc])
  | looped hloop => exact (loopTurn_rights hloop).trans (by simp [WorkerState.mayCall, add_assoc])
  | replied hcall => exact (callTurn_rights hcall).trans (by simp)
  | resumed hretry => exact (retryTurn_rights hretry).trans (by simp)
  | _ => simp [WorkerState.mayCall]

/-- Calls made and rights outstanding against rights ever given. -/
def Righted {n : ℕ} (s : State n) : Prop :=
  s.ctx.calls.length + (s.phase.held.card + (tickets s.ctx.queue.items).length +
    ∑ i, (s.workers i).mayCall) ≤ s.ctx.record.counts.ingested + s.ctx.retryBudget.used

/-- A step of the runner that neither ingests nor puts. -/
theorem Righted.still {n : ℕ} {s s' : State n} (hs : Righted s) (hcalls : s'.ctx.calls = s.ctx.calls)
    (hphase : s'.phase.held.card = s.phase.held.card)
    (hqueue : tickets s'.ctx.queue.items = tickets s.ctx.queue.items)
    (hworkers : s'.workers = s.workers)
    (hingested : s'.ctx.record.counts.ingested = s.ctx.record.counts.ingested)
    (hbudget : s'.ctx.retryBudget.used = s.ctx.retryBudget.used) : Righted s' := by
  unfold Righted
  rw [hcalls, hphase, hqueue, hworkers, hingested, hbudget]
  exact hs

theorem step_righted {s s' : State J.concurrency} {a : Action R J.concurrency} (hs : Righted s)
    (h : JobTurn J s a s') : Righted s' := by
  cases h with
  | @worker i input ctx' ws' e hturn hdoes =>
    have hrights := turn_rights hturn
    have hsum := Runs.sum_update_add s.workers WorkerState.mayCall i ws'
    have hqueue := congrArg List.length (congrArg tickets hdoes.queue)
    rw [tickets_append, List.length_append] at hqueue
    unfold Righted at hs ⊢
    show ctx'.calls.length + (s.phase.held.card + (tickets ctx'.queue.items).length +
      ∑ j, (Function.update s.workers i ws' j).mayCall) ≤
        ctx'.record.counts.ingested + ctx'.retryBudget.used
    have hingested := settles_ingested e.rows s.ctx.record
    rw [hdoes.calls, hdoes.record, hdoes.used, List.length_append]
    show _ ≤ (e.rows.foldl JobRecord.settle s.ctx.record).counts.ingested + _
    omega
  | tick _ => exact hs
  | cancel => exact hs
  | wrote _ => exact hs
  | timedOut _ => exact hs
  | ingested hphase _ =>
    have hheld : s.phase.held.card = 0 := by rw [hphase]; rfl
    unfold Righted at hs ⊢
    show s.ctx.calls.length + (1 + (tickets s.ctx.queue.items).length +
      ∑ i, (s.workers i).mayCall) ≤ s.ctx.record.counts.ingested + 1 + s.ctx.retryBudget.used
    omega
  | @put t q next hphase hput hnext =>
    have hheld : s.phase.held.card = 1 := by rw [hphase]; rfl
    have hnone : next.held.card = 0 := by obtain rfl | rfl | rfl := hnext <;> rfl
    have hqueue : (tickets q.items).length = (tickets s.ctx.queue.items).length + 1 := by
      rw [(BoundedQueue.put_some hput).2.1, tickets_append]
      simp
    unfold Righted at hs ⊢
    show s.ctx.calls.length + (next.held.card + (tickets q.items).length +
      ∑ i, (s.workers i).mayCall) ≤ s.ctx.record.counts.ingested + s.ctx.retryBudget.used
    omega
  | sentinel hphase hput =>
    refine hs.still rfl (by rw [hphase]; rfl) ?_ rfl rfl rfl
    rw [(BoundedQueue.put_some hput).2.1, tickets_append, tickets_shutdown, tickets_nil,
      List.append_nil]
  | @saved next hphase hnext =>
    refine hs.still rfl ?_ rfl rfl rfl rfl
    rw [hphase]
    rcases hnext with rfl | rfl <;> rfl
  | finalized hphase =>
    refine hs.still rfl ?_ rfl rfl rfl rfl
    rw [hphase]
    split <;> rfl
  | begun hphase => exact hs.still rfl (by rw [hphase]; rfl) rfl rfl rfl rfl
  | ended hphase _ => exact hs.still rfl (by rw [hphase]; rfl) rfl rfl rfl rfl
  | dropped hphase _ _ => exact hs.still rfl (by rw [hphase]; rfl) rfl rfl rfl rfl
  | closed hphase => exact hs.still rfl (by rw [hphase]; rfl) rfl rfl rfl rfl
  | gathering hphase => exact hs.still rfl (by rw [hphase]; rfl) rfl rfl rfl rfl
  | gathered hphase _ => exact hs.still rfl (by rw [hphase]; rfl) rfl rfl rfl rfl
  | reraised hphase => exact hs.still rfl (by rw [hphase]; rfl) rfl rfl rfl rfl
  | costRaised hphase _ => exact hs.still rfl (by rw [hphase]; rfl) rfl rfl rfl rfl
  | savedFinal hphase => exact hs.still rfl (by rw [hphase]; rfl) rfl rfl rfl rfl
  | delivered hphase => exact hs.still rfl (by rw [hphase]; rfl) rfl rfl rfl rfl

theorem reachable_righted {s : State J.concurrency} (h : Reachable J s) : Righted s := by
  refine h.invariant (I := Righted) ?_ fun s a s' _ hs ht => step_righted hs ht
  intro now wall
  have hnone : ∑ i, ((J.start now wall).workers i).mayCall = 0 := Finset.sum_eq_zero fun i _ => rfl
  unfold Righted
  rw [hnone]
  exact Nat.le_refl 0

/-! ## The attempts of one entry -/

/-- How often entry `seq` was sent to the provider. -/
def sends (calls : List Call) (seq : ℕ) : ℕ := calls.countP fun c => c.seq = seq

@[simp] theorem sends_append (calls more : List Call) (seq : ℕ) :
    sends (calls ++ more) seq = sends calls seq + sends more seq := List.countP_append

/-- The attempts that the worker has counted for its item are the calls made for it,
and there is room for the next one. -/
def Attempted (calls : List Call) : WorkerState → Prop
  | .breakerWait h _ | .backoff h _ => sends calls h.seq = h.attempt ∧ h.attempt < 8
  | .acquiring h _ => sends calls h.seq + 1 = h.attempt ∧ h.attempt ≤ 8
  | .calling h _ | .resetWait h _ _ | .resetJitter h _ _ =>
    sends calls h.seq = h.attempt ∧ h.attempt ≤ 8
  | .idle | .returned => True

theorem loopTurn_attempted {ctx : WorkerContext} {h : InHand} {ws' : WorkerState} {e : Effect}
    {calls : List Call} (hturn : LoopTurn ctx h ws' e) (hsends : sends calls h.seq = h.attempt)
    (hroom : h.attempt < 8) :
    Attempted (calls ++ e.calls) ws' ∧
      ∀ c ∈ e.calls, c.seq = h.seq ∧ sends (calls ++ e.calls) c.seq ≤ 8 := by
  cases hturn with
  | stopped => exact ⟨trivial, by simp⟩
  | refused => exact ⟨⟨by simpa [sends] using hsends, hroom⟩, by simp⟩
  | admitted => exact ⟨⟨by simpa [sends] using hsends, hroom⟩, by simp⟩
  | called =>
    have hnow : sends (calls ++ [⟨h.seq, h.attempt + 1⟩]) h.seq = h.attempt + 1 := by
      rw [sends_append, hsends]
      simp [sends]
    refine ⟨⟨hnow, hroom⟩, fun c hc => ?_⟩
    rw [List.mem_singleton.mp hc]
    exact ⟨rfl, hnow.trans_le hroom⟩

theorem retryTurn_attempted {h : InHand} {ws' : WorkerState} {e : Effect} {calls : List Call}
    (hturn : RetryTurn h ws' e) (hsends : sends calls h.seq = h.attempt) :
    Attempted calls ws' ∧ e.calls = [] := by
  cases hturn with
  | gaveUp => exact ⟨trivial, rfl⟩
  | retried hattempt => exact ⟨⟨hsends, hattempt⟩, rfl⟩

theorem callTurn_attempted {W : WorkerConfig R} {ctx' : WorkerContext} {h : InHand}
    {outcome : Outcome} {raises : Bool} {ws' : WorkerState} {e : Effect} {calls : List Call}
    (hturn : CallTurn W ctx' h outcome raises ws' e) (hsends : sends calls h.seq = h.attempt)
    (hattempt : h.attempt ≤ 8) : Attempted calls ws' ∧ e.calls = [] := by
  cases hturn with
  | succeeded => exact ⟨trivial, rfl⟩
  | raised => exact ⟨trivial, rfl⟩
  | fatal => exact ⟨trivial, rfl⟩
  | paused => exact ⟨⟨hsends, hattempt⟩, rfl⟩
  | jittered => exact ⟨⟨hsends, hattempt⟩, rfl⟩
  | failed _ _ hretry => exact retryTurn_attempted hretry hsends

/-- A turn sends only the entry in the worker's hand or just taken from the queue, and
not more often than eight times. -/
theorem turn_attempted {W : WorkerConfig R} {ctx ctx' : WorkerContext} {ws ws' : WorkerState}
    {input : WorkerInput R} {e : Effect} {calls : List Call}
    (hturn : Turn W ctx ctx' ws input ws' e) (hws : Attempted calls ws)
    (hpops : ∀ t ∈ tickets e.pops, sends calls t.seq = 0) :
    Attempted (calls ++ e.calls) ws' ∧
      ∀ c ∈ e.calls, (∃ t ∈ ws.held + (tickets e.pops : Multiset Ticket), c.seq = t.seq) ∧
        sends (calls ++ e.calls) c.seq ≤ 8 := by
  have hheld : ∀ {h : InHand} {pops : List Queued}, h.ticket ∈ ({h.ticket} : Multiset Ticket) +
      (tickets pops : Multiset Ticket) :=
    fun {h pops} => Multiset.mem_add.mpr (Or.inl (Multiset.mem_singleton_self _))
  cases hturn with
  | shutdown => exact ⟨trivial, by simp⟩
  | passed => exact ⟨trivial, by simp⟩
  | @taken seq p ws' e hloop =>
    obtain ⟨hws', hcalls⟩ :=
      loopTurn_attempted hloop (hpops ⟨seq, .item p⟩ (by simp)) (Nat.succ_pos 7)
    refine ⟨hws', fun c hc => ⟨⟨⟨seq, .item p⟩, ?_, (hcalls c hc).1⟩, (hcalls c hc).2⟩⟩
    simp [WorkerState.held, WorkerState.hand]
  | @asked h wake u ws' e hloop =>
    obtain ⟨hws', hcalls⟩ := loopTurn_attempted hloop hws.1 hws.2
    exact ⟨hws', fun c hc => ⟨⟨h.ticket, hheld, (hcalls c hc).1⟩, (hcalls c hc).2⟩⟩
  | @looped h wake u ws' e hloop =>
    obtain ⟨hws', hcalls⟩ := loopTurn_attempted hloop hws.1 hws.2
    exact ⟨hws', fun c hc => ⟨⟨h.ticket, hheld, (hcalls c hc).1⟩, (hcalls c hc).2⟩⟩
  | waited => exact ⟨by simpa [Attempted, sends] using hws, by simp⟩
  | @granted h wake u =>
    have hnow : sends (calls ++ [⟨h.seq, h.attempt⟩]) h.seq = h.attempt := by
      rw [sends_append, ← hws.1]
      simp [sends]
    refine ⟨⟨hnow, hws.2⟩, fun c hc => ?_⟩
    rw [List.mem_singleton.mp hc]
    exact ⟨⟨h.ticket, hheld, rfl⟩, hnow.trans_le hws.2⟩
  | replied hcall =>
    obtain ⟨hws', hnone⟩ := callTurn_attempted hcall hws.1 hws.2
    simp only [hnone, List.append_nil]
    exact ⟨hws', by simp⟩
  | jittered => exact ⟨by simpa [Attempted, sends] using hws, by simp⟩
  | resumed hretry =>
    obtain ⟨hws', hnone⟩ := retryTurn_attempted hretry hws.1
    simp only [hnone, List.append_nil]
    exact ⟨hws', by simp⟩

/-! ## The attempts of every entry -/

/-- The unresolved entries are numbered apart, and below the next number. -/
structure Numbered {n : ℕ} (s : State n) : Prop where
  distinct : ((unresolved s).map Ticket.seq).Nodup
  fresh : ∀ t ∈ unresolved s, t.seq < s.ctx.record.counts.ingested

theorem step_numbered {s s' : State J.concurrency} {a : Action R J.concurrency} (hs : Numbered s)
    (h : JobTurn J s a s') : Numbered s' := by
  obtain ⟨hdistinct, hfresh⟩ := hs
  cases step_custody h with
  | settled _ _ hunresolved hingested =>
    rw [hunresolved, Multiset.map_add, Multiset.nodup_add] at hdistinct
    refine ⟨hdistinct.2.1, fun t ht => ?_⟩
    rw [hingested]
    exact hfresh t (hunresolved ▸ Multiset.mem_add.mpr (Or.inr ht))
  | admitted _ _ _ _ hunresolved hingested =>
    constructor
    · rw [hunresolved, Multiset.map_cons, Multiset.nodup_cons]
      refine ⟨fun hmem => ?_, hdistinct⟩
      obtain ⟨t, ht, hseq⟩ := Multiset.mem_map.mp hmem
      have hlt := hfresh t ht
      rw [hseq] at hlt
      exact Nat.lt_irrefl _ hlt
    · intro t ht
      rw [hingested]
      rcases Multiset.mem_cons.mp (hunresolved ▸ ht) with rfl | ht
      · exact Nat.lt_succ_self _
      · exact Nat.lt_succ_of_lt (hfresh t ht)

theorem reachable_numbered {s : State J.concurrency} (h : Reachable J s) : Numbered s := by
  refine h.invariant (I := Numbered) ?_ fun s a s' _ hs ht => step_numbered hs ht
  intro now wall
  constructor <;> rw [unresolved_start] <;> simp

/-- Entries that wait were never sent, and each worker's item was sent as often as the
worker counted. -/
structure Sent {n : ℕ} (s : State n) : Prop where
  past : ∀ c ∈ s.ctx.calls, c.seq < s.ctx.record.counts.ingested
  waiting : ∀ t ∈ s.phase.held + (tickets s.ctx.queue.items : Multiset Ticket),
    sends s.ctx.calls t.seq = 0
  attempted : ∀ i, Attempted s.ctx.calls (s.workers i)
  bounded : ∀ seq, sends s.ctx.calls seq ≤ 8

theorem sends_eq_zero {calls : List Call} {seq : ℕ} (h : ∀ c ∈ calls, c.seq ≠ seq) :
    sends calls seq = 0 :=
  List.countP_eq_zero.mpr fun c hc => by simpa using h c hc

theorem Attempted.congr {calls calls' : List Call} {ws : WorkerState} (hws : Attempted calls ws)
    (h : ∀ hand, ws.hand = some hand → sends calls' hand.seq = sends calls hand.seq) :
    Attempted calls' ws := by
  cases ws with
  | idle => trivial
  | returned => trivial
  | acquiring hand wake => exact ⟨(congrArg (· + 1) (h hand rfl)).trans hws.1, hws.2⟩
  | breakerWait hand wake => exact ⟨(h hand rfl).trans hws.1, hws.2⟩
  | calling hand start => exact ⟨(h hand rfl).trans hws.1, hws.2⟩
  | resetWait hand wake f => exact ⟨(h hand rfl).trans hws.1, hws.2⟩
  | resetJitter hand wake f => exact ⟨(h hand rfl).trans hws.1, hws.2⟩
  | backoff hand wake => exact ⟨(h hand rfl).trans hws.1, hws.2⟩

theorem distinct_apart {a b : Multiset Ticket} (hdistinct : ((a + b).map Ticket.seq).Nodup)
    {t u : Ticket} (ht : t ∈ a) (hu : u ∈ b) : t.seq ≠ u.seq := by
  rw [Multiset.map_add, Multiset.nodup_add] at hdistinct
  intro heq
  exact Multiset.disjoint_left.mp hdistinct.2.2 (Multiset.mem_map_of_mem _ ht)
    (heq ▸ Multiset.mem_map_of_mem _ hu)

/-- The unresolved entries, split at worker `i` about to take `pops` from the queue. -/
theorem unresolved_split {n : ℕ} (s : State n) (i : Fin n) {pops items : List Queued}
    (hqueue : s.ctx.queue.items = pops ++ items) :
    unresolved s = ((s.workers i).held + (tickets pops : Multiset Ticket)) +
      (s.phase.held + (tickets items : Multiset Ticket) +
        ∑ j ∈ Finset.univ.erase i, (s.workers j).held) := by
  unfold unresolved
  rw [hqueue, tickets_append, ← Multiset.coe_add, ← Finset.add_sum_erase _ _ (Finset.mem_univ i)]
  ac_rfl

theorem mem_held {ws : WorkerState} {h : InHand} (hand : ws.hand = some h) : h.ticket ∈ ws.held := by
  unfold WorkerState.held
  rw [hand]
  exact Multiset.mem_singleton_self _

theorem worker_sent {s : State J.concurrency} (hnumbered : Numbered s) (hs : Sent s)
    {ctx' : WorkerContext} {i : Fin J.concurrency} {ws' : WorkerState} {input : WorkerInput R}
    {e : Effect} (hturn : Turn J.toWorkerConfig s.ctx ctx' (s.workers i) input ws' e)
    (hdoes : Does s.ctx ctx' e) :
    Sent { s with ctx := ctx', workers := Function.update s.workers i ws' } := by
  have hsplit := unresolved_split s i hdoes.queue
  have hpops : ∀ t ∈ tickets e.pops, sends s.ctx.calls t.seq = 0 := by
    intro t ht
    refine hs.waiting t (Multiset.mem_add.mpr (Or.inr ?_))
    rw [hdoes.queue, tickets_append, Multiset.mem_coe]
    exact List.mem_append_left _ ht
  obtain ⟨hws', hcalls⟩ := turn_attempted hturn (hs.attempted i) hpops
  have hapart : ∀ t ∈ s.phase.held + (tickets ctx'.queue.items : Multiset Ticket) +
      ∑ j ∈ Finset.univ.erase i, (s.workers j).held, sends e.calls t.seq = 0 := by
    intro t ht
    refine sends_eq_zero fun c hc => ?_
    obtain ⟨⟨u, hu, hseq⟩, -⟩ := hcalls c hc
    rw [hseq]
    exact distinct_apart (hsplit ▸ hnumbered.distinct) hu ht
  have hingested : ctx'.record.counts.ingested = s.ctx.record.counts.ingested := by
    rw [hdoes.record]
    exact settles_ingested _ _
  refine ⟨fun c hc => ?_, fun t ht => ?_, fun j => ?_, fun seq => ?_⟩
  · show c.seq < ctx'.record.counts.ingested
    rw [hingested]
    change c ∈ ctx'.calls at hc
    rw [hdoes.calls] at hc
    rcases List.mem_append.mp hc with hc | hc
    · exact hs.past c hc
    · obtain ⟨⟨u, hu, hseq⟩, -⟩ := hcalls c hc
      rw [hseq]
      exact hnumbered.fresh u (hsplit ▸ Multiset.mem_add.mpr (Or.inl hu))
  · show sends ctx'.calls t.seq = 0
    change t ∈ s.phase.held + (tickets ctx'.queue.items : Multiset Ticket) at ht
    rw [hdoes.calls, sends_append, hapart t (Multiset.mem_add.mpr (Or.inl ht))]
    refine hs.waiting t ?_
    rw [hdoes.queue, tickets_append, ← Multiset.coe_add]
    rcases Multiset.mem_add.mp ht with ht | ht
    · exact Multiset.mem_add.mpr (Or.inl ht)
    · exact Multiset.mem_add.mpr (Or.inr (Multiset.mem_add.mpr (Or.inr ht)))
  · show Attempted ctx'.calls (Function.update s.workers i ws' j)
    rw [hdoes.calls]
    by_cases hj : j = i
    · rw [hj, Function.update_self]
      exact hws'
    · rw [Function.update_of_ne hj]
      refine (hs.attempted j).congr fun h hhand => ?_
      have hmem : h.ticket ∈ ∑ j ∈ Finset.univ.erase i, (s.workers j).held :=
        Multiset.mem_sum.mpr ⟨j, Finset.mem_erase.mpr ⟨hj, Finset.mem_univ j⟩, mem_held hhand⟩
      rw [sends_append]
      exact Nat.add_eq_left.mpr (hapart h.ticket (Multiset.mem_add.mpr (Or.inr hmem)))
  · show sends ctx'.calls seq ≤ 8
    rw [hdoes.calls]
    by_cases hc : ∃ c ∈ e.calls, c.seq = seq
    · obtain ⟨c, hc, rfl⟩ := hc
      exact (hcalls c hc).2
    · rw [sends_append, sends_eq_zero fun c hm heq => hc ⟨c, hm, heq⟩]
      exact hs.bounded seq

/-- A step that makes no call and moves no worker. -/
theorem Sent.still {n : ℕ} {s s' : State n} (hs : Sent s) (hcalls : s'.ctx.calls = s.ctx.calls)
    (hingested : s.ctx.record.counts.ingested ≤ s'.ctx.record.counts.ingested)
    (hworkers : s'.workers = s.workers)
    (hwaiting : ∀ t ∈ s'.phase.held + (tickets s'.ctx.queue.items : Multiset Ticket),
      sends s.ctx.calls t.seq = 0) : Sent s' where
  past := fun c hc => (hs.past c (hcalls ▸ hc)).trans_le hingested
  waiting := by rw [hcalls]; exact hwaiting
  attempted := by rw [hcalls, hworkers]; exact hs.attempted
  bounded := by rw [hcalls]; exact hs.bounded

theorem step_sent {s s' : State J.concurrency} {a : Action R J.concurrency} (hnumbered : Numbered s)
    (hs : Sent s) (h : JobTurn J s a s') : Sent s' := by
  -- what waits after a quiet step was queued before it
  have hquiet : ∀ {p : RunPhase}, p.held = 0 →
      ∀ t ∈ p.held + (tickets s.ctx.queue.items : Multiset Ticket), sends s.ctx.calls t.seq = 0 := by
    intro p hp t ht
    rw [hp, zero_add] at ht
    exact hs.waiting t (Multiset.mem_add.mpr (Or.inr ht))
  cases h with
  | worker hturn hdoes => exact worker_sent hnumbered hs hturn hdoes
  | tick _ => exact hs.still rfl le_rfl rfl hs.waiting
  | cancel => exact hs.still rfl le_rfl rfl hs.waiting
  | wrote _ => exact hs.still rfl le_rfl rfl hs.waiting
  | timedOut _ => exact hs.still rfl le_rfl rfl hs.waiting
  | @ingested parsed rest hphase hrest =>
    refine hs.still rfl (Nat.le_succ _) rfl fun t ht => ?_
    change t ∈ ({⟨s.ctx.record.counts.ingested, parsed⟩} : Multiset Ticket) +
      (tickets s.ctx.queue.items : Multiset Ticket) at ht
    rcases Multiset.mem_add.mp ht with ht | ht
    · rw [Multiset.mem_singleton.mp ht]
      exact sends_eq_zero fun c hc => Nat.ne_of_lt (hs.past c hc)
    · exact hs.waiting t (Multiset.mem_add.mpr (Or.inr ht))
  | @put t q next hphase hput hnext =>
    have hnone : next.held = 0 := by obtain rfl | rfl | rfl := hnext <;> rfl
    have hqueue : (tickets q.items : Multiset Ticket) = tickets s.ctx.queue.items + {t} := by
      rw [(BoundedQueue.put_some hput).2.1, tickets_append, ← Multiset.coe_add]
      rfl
    refine hs.still rfl le_rfl rfl fun u hu => hs.waiting u ?_
    change u ∈ next.held + (tickets q.items : Multiset Ticket) at hu
    rw [hnone, zero_add, hqueue, add_comm] at hu
    rw [hphase]
    exact hu
  | @sentinel left exc q hphase hput =>
    have hqueue : tickets q.items = tickets s.ctx.queue.items := by
      rw [(BoundedQueue.put_some hput).2.1, tickets_append, tickets_shutdown, tickets_nil,
        List.append_nil]
    refine hs.still rfl le_rfl rfl ?_
    simp only [hqueue]
    exact hquiet rfl
  | @saved next _ hnext =>
    exact hs.still rfl le_rfl rfl (hquiet (by obtain rfl | rfl := hnext <;> rfl))
  | finalized _ => exact hs.still rfl le_rfl rfl (hquiet (by split <;> rfl))
  | begun _ => exact hs.still rfl le_rfl rfl (hquiet rfl)
  | ended _ _ => exact hs.still rfl le_rfl rfl (hquiet rfl)
  | dropped _ _ _ => exact hs.still rfl le_rfl rfl (hquiet rfl)
  | closed _ => exact hs.still rfl le_rfl rfl (hquiet rfl)
  | gathering _ => exact hs.still rfl le_rfl rfl (hquiet rfl)
  | gathered _ _ => exact hs.still rfl le_rfl rfl (hquiet rfl)
  | reraised _ => exact hs.still rfl le_rfl rfl (hquiet rfl)
  | costRaised _ _ => exact hs.still rfl le_rfl rfl (hquiet rfl)
  | savedFinal _ => exact hs.still rfl le_rfl rfl (hquiet rfl)
  | delivered _ => exact hs.still rfl le_rfl rfl (hquiet rfl)

theorem reachable_sent {s : State J.concurrency} (h : Reachable J s) : Sent s := by
  refine h.invariant (I := Sent) ?_ fun s a s' hreach hs ht =>
    step_sent (reachable_numbered hreach) hs ht
  intro now wall
  constructor
  · exact fun c hc => absurd hc List.not_mem_nil
  · exact fun t ht => absurd ht (Multiset.notMem_zero t)
  · exact fun i => trivial
  · exact fun seq => Nat.zero_le 8

/-! ## The law -/

/-- Retries add at most a fifth to the calls, the budget is kept at every moment although
its limit moves, and no entry is sent more than eight times. -/
theorem retries_bounded {s : State J.concurrency} (h : Reachable J s) :
    s.ctx.calls.length ≤
      s.ctx.record.counts.ingested + max 1 (s.ctx.record.counts.ingested / 5) ∧
    s.ctx.controller.retriesIssued = s.ctx.retryBudget.used ∧
    s.ctx.retryBudget.used ≤ s.ctx.retryBudget.limit ∧
    ∀ seq, sends s.ctx.calls seq ≤ 8 := by
  obtain ⟨hissued, hused⟩ := reachable_used h
  have hrights := reachable_righted h
  have hlimit := reachable_limit h
  unfold Righted at hrights
  exact ⟨by omega, hissued, hused, (reachable_sent h).bounded⟩

theorem retries_bounded_twoRows : twoRowsDrained.ctx.calls.length ≤
    twoRowsDrained.ctx.record.counts.ingested +
      max 1 (twoRowsDrained.ctx.record.counts.ingested / 5) :=
  (retries_bounded twoRowsDrained_reachable).1

end BatchEngine.Core
