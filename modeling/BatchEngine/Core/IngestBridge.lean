import BatchEngine.Lib.BoundedQueue
import BatchEngine.Lib.Runs

/-!
# The bridge between the ingest thread and the event loop

`stream_items` runs the parser in a thread that hands each entry to a queue of 64 places;
the consumer is an asynchronous generator on the loop. A stop flag, a sentinel and an
error box go with the queue. The entries and the exceptions are of any type.
-/

set_option autoImplicit false

namespace BatchEngine.Core

/-- Where the producer thread is. It blocks in `putting` and `puttingSentinel`, until the
loop has run the `put` that it submitted. -/
inductive Producer (α : Type*) where
  | reading
  | checking (result : α)
  | offering (result : α)
  | putting (result : α)
  | ending
  | puttingSentinel
  | finished
  deriving DecidableEq

/-- Where the generator is; `closed` is whether it was closed before its end, and `exc`
what it raises at its end. -/
inductive Consumer (ε : Type*) where
  | getting
  | yielding
  | draining (closed : Bool)
  | ended (closed : Bool) (exc : Option ε)
  deriving DecidableEq

/-- `rest` and `fails` are what the parser will still do. In the queue `none` is the
sentinel. `yielded` is what the consumer has got, and `late` counts the rows that were
offered after the stop. -/
structure Bridge (α ε : Type*) where
  rest : List α
  fails : Option ε
  producer : Producer α := .reading
  queue : BoundedQueue (Option α) := .empty 64
  stop : Bool := false
  errorBox : List ε := []
  done : Bool := false
  consumer : Consumer ε := .getting
  yielded : List α := []
  late : ℕ := 0

/-- The thread, the loop for its `put` and for its future, the generator, and its caller. -/
inductive BridgeAction where
  | produce
  | put
  | settle
  | get
  | drain
  | next
  | close
  deriving DecidableEq

namespace Bridge

variable {α ε : Type*}

/-- `producer`, from one point where another party can come in to the next. -/
def produce (s : Bridge α ε) : Option (Bridge α ε) :=
  match s.producer with
  | .reading =>
    match s.rest with
    | result :: rest => some { s with rest, producer := .checking result }
    | [] => some { s with errorBox := s.errorBox ++ s.fails.toList, producer := .ending }
  | .checking result => some { s with producer := if s.stop then .ending else .offering result }
  | .offering result =>
    some { s with producer := .putting result, late := if s.stop then s.late + 1 else s.late }
  | .ending => some { s with producer := .puttingSentinel }
  | .putting _ | .puttingSentinel | .finished => none

/-- The `put` that the thread waits for. -/
def put (s : Bridge α ε) : Option (Bridge α ε) :=
  match s.producer with
  | .putting result =>
    (s.queue.put (some result)).map fun queue => { s with queue, producer := .reading }
  | .puttingSentinel =>
    (s.queue.put none).map fun queue => { s with queue, producer := .finished }
  | _ => none

def get (s : Bridge α ε) : Option (Bridge α ε) :=
  match s.consumer with
  | .getting =>
    s.queue.get.map fun
      | (some result, queue) =>
        { s with queue, consumer := .yielding, yielded := s.yielded ++ [result] }
      | (none, queue) => { s with queue, stop := true, consumer := .draining false }
  | _ => none

/-- A pass of the loop in the `finally` block. An empty queue is left to the other
parties: `sleep(0)` changes nothing. -/
def drain (s : Bridge α ε) : Option (Bridge α ε) :=
  match s.consumer with
  | .draining closed =>
    if s.done then
      some { s with consumer := .ended closed (if closed then none else s.errorBox.head?) }
    else s.queue.get.map fun got => { s with queue := got.2 }
  | _ => none

/-- The caller closes the generator, or is cancelled while it waits for an entry. -/
def close (s : Bridge α ε) : Option (Bridge α ε) :=
  match s.consumer with
  | .getting | .yielding => some { s with stop := true, consumer := .draining true }
  | _ => none

def step (s : Bridge α ε) : BridgeAction → Option (Bridge α ε)
  | .produce => s.produce
  | .put => s.put
  | .settle =>
    match s.producer with
    | .finished => if s.done then none else some { s with done := true }
    | _ => none
  | .get => s.get
  | .drain => s.drain
  | .next =>
    match s.consumer with
    | .yielding => some { s with consumer := .getting }
    | _ => none
  | .close => s.close

/-- The generator at its first `get`, over a parser that yields the entries and then ends
or raises. -/
def start (entries : List α) (fails : Option ε) : Bridge α ε := { rest := entries, fails }

end Bridge

/-! ## What holds on the way -/

section Facts

variable {α ε : Type*} {entries : List α} {fails : Option ε} {s s' : Bridge α ε}

def Producer.hand : Producer α → List α
  | .checking result | .offering result | .putting result => [result]
  | _ => []

/-- The parser is at its end. -/
def Producer.Over : Producer α → Prop
  | .ending | .puttingSentinel | .finished => True
  | _ => False

/-- What the queue holds behind the entries. -/
def Producer.mark : Producer α → List (Option α)
  | .finished => [none]
  | _ => []

structure Bridge.Fixed (fails : Option ε) (s : Bridge α ε) : Prop where
  fails : s.fails = fails
  done : s.done = true → s.producer = .finished
  maxsize : s.queue.maxsize = 64

/-- Before the stop nothing is lost: the entries are those yielded, queued, in the thread's
hand and unread. -/
structure Bridge.Flowing (entries : List α) (fails : Option ε) (s : Bridge α ε) : Prop where
  stop : s.stop = false
  flow : ∃ rows : List α, s.queue.items = rows.map some ++ s.producer.mark ∧
    entries = s.yielded ++ rows ++ s.producer.hand ++ s.rest
  atEnd : s.producer.Over → s.rest = [] ∧ s.errorBox = fails.toList
  errors : ¬ s.producer.Over → s.errorBox = []
  late : s.late = 0

/-- After the stop the consumer keeps what it has, which is all if it was not closed. -/
structure Bridge.Stopped (entries : List α) (fails : Option ε) (closed : Bool)
    (s : Bridge α ε) : Prop where
  stop : s.stop = true
  got : s.yielded <+: entries
  whole : closed = false →
    s.yielded = entries ∧ s.errorBox = fails.toList ∧ s.producer = .finished
  late : s.late ≤ 1
  last : ∀ result, s.producer = .offering result → s.late = 0

/-- What holds of the bridge while the generator is there. -/
def Consumer.Sees (entries : List α) (fails : Option ε) (s : Bridge α ε) : Consumer ε → Prop
  | .getting | .yielding => s.Flowing entries fails
  | .draining closed => s.Stopped entries fails closed
  | .ended closed exc => s.Stopped entries fails closed ∧ s.done = true ∧
      exc = if closed then none else fails

structure Bridge.Facts (entries : List α) (fails : Option ε) (s : Bridge α ε) : Prop where
  fixed : s.Fixed fails
  sees : s.consumer.Sees entries fails s

theorem facts_start : (Bridge.start entries fails).Facts entries fails :=
  ⟨⟨rfl, nofun, rfl⟩, rfl, ⟨[], rfl, rfl⟩, False.elim, fun _ => rfl, rfl⟩

/-! ## The thread -/

theorem Bridge.Fixed.running (hfixed : s.Fixed fails) (h : s.producer ≠ .finished) :
    s.done = false := by
  by_contra hdone
  exact h (hfixed.done (Bool.not_eq_false _ ▸ hdone))

theorem Bridge.Fixed.produce (hfixed : s.Fixed fails) (h : s.produce = some s') :
    s'.Fixed fails ∧ s'.consumer = s.consumer := by
  have hrunning : s.done = false := hfixed.running fun hfinished => by
    rw [Bridge.produce, hfinished] at h
    cases h
  have hdone : ∀ producer : Producer α, s.done = true → producer = .finished :=
    fun producer hd => absurd hd (hrunning ▸ Bool.false_ne_true)
  unfold Bridge.produce at h
  split at h
  · split at h <;> obtain rfl := Option.some.inj h <;>
      exact ⟨⟨hfixed.fails, hdone _, hfixed.maxsize⟩, rfl⟩
  · obtain rfl := Option.some.inj h
    exact ⟨⟨hfixed.fails, hdone _, hfixed.maxsize⟩, rfl⟩
  · obtain rfl := Option.some.inj h
    exact ⟨⟨hfixed.fails, hdone _, hfixed.maxsize⟩, rfl⟩
  · obtain rfl := Option.some.inj h
    exact ⟨⟨hfixed.fails, hdone _, hfixed.maxsize⟩, rfl⟩
  all_goals cases h

theorem Bridge.Flowing.produce (hs : s.Flowing entries fails) (hfails : s.fails = fails)
    (h : s.produce = some s') : s'.Flowing entries fails := by
  obtain ⟨hstop, ⟨rows, hqueue, hflow⟩, hatEnd, herrors, hlate⟩ := hs
  have hopen : ¬ s.stop = true := fun ht => Bool.false_ne_true (hstop.symm.trans ht)
  unfold Bridge.produce at h
  split at h
  · rename_i hproducer
    rw [hproducer] at hqueue hflow hatEnd herrors
    split at h
    · rename_i result rest hrest
      obtain rfl := Option.some.inj h
      rw [hrest] at hflow
      refine ⟨hstop, ⟨rows, hqueue, ?_⟩, False.elim, fun _ => herrors id, hlate⟩
      rw [hflow]
      simp [Producer.hand]
    · rename_i hrest
      obtain rfl := Option.some.inj h
      refine ⟨hstop, ⟨rows, hqueue, hflow⟩, fun _ => ⟨hrest, ?_⟩,
        fun hno => absurd trivial hno, hlate⟩
      show s.errorBox ++ s.fails.toList = _
      rw [herrors id, hfails]
      rfl
  · rename_i result hproducer
    obtain rfl := Option.some.inj h
    rw [hproducer] at hqueue hflow hatEnd herrors
    rw [if_neg hopen]
    exact ⟨hstop, ⟨rows, hqueue, hflow⟩, False.elim, fun _ => herrors id, hlate⟩
  · rename_i result hproducer
    obtain rfl := Option.some.inj h
    rw [hproducer] at hqueue hflow hatEnd herrors
    rw [if_neg hopen]
    exact ⟨hstop, ⟨rows, hqueue, hflow⟩, False.elim, fun _ => herrors id, hlate⟩
  · rename_i hproducer
    obtain rfl := Option.some.inj h
    rw [hproducer] at hqueue hflow hatEnd herrors
    exact ⟨hstop, ⟨rows, hqueue, hflow⟩, fun _ => hatEnd trivial,
      fun hno => absurd trivial hno, hlate⟩
  all_goals cases h

/-- A thread that passes the stop flag ends; a row that it had checked before is the last. -/
theorem Bridge.Stopped.produce {closed : Bool} (hs : s.Stopped entries fails closed)
    (h : s.produce = some s') : s'.Stopped entries fails closed := by
  obtain ⟨hstop, hgot, hwhole, hlate, hlast⟩ := hs
  have hclosed : closed = true := by
    by_contra hopen
    rw [Bridge.produce, (hwhole (Bool.not_eq_true _ ▸ hopen)).2.2] at h
    cases h
  subst hclosed
  unfold Bridge.produce at h
  split at h
  · split at h <;> obtain rfl := Option.some.inj h <;> exact ⟨hstop, hgot, nofun, hlate, nofun⟩
  · obtain rfl := Option.some.inj h
    rw [if_pos hstop]
    exact ⟨hstop, hgot, nofun, hlate, nofun⟩
  · rename_i result hproducer
    obtain rfl := Option.some.inj h
    rw [if_pos hstop]
    refine ⟨hstop, hgot, nofun, ?_, nofun⟩
    rw [hlast result hproducer]
  · obtain rfl := Option.some.inj h
    exact ⟨hstop, hgot, nofun, hlate, nofun⟩
  all_goals cases h

theorem Bridge.Facts.produce (hs : s.Facts entries fails) (h : s.produce = some s') :
    s'.Facts entries fails := by
  obtain ⟨hfixed, hsees⟩ := hs
  obtain ⟨hfixed', hconsumer⟩ := hfixed.produce h
  have hkept : ∀ c : Consumer ε, c.Sees entries fails s → c.Sees entries fails s' := by
    intro c hc
    cases c with
    | getting => exact Bridge.Flowing.produce hc hfixed.fails h
    | yielding => exact Bridge.Flowing.produce hc hfixed.fails h
    | draining closed => exact Bridge.Stopped.produce hc h
    | ended closed exc =>
      -- The generator has awaited the thread.
      rw [Bridge.produce, hfixed.done hc.2.1] at h
      cases h
  exact ⟨hfixed', hconsumer ▸ hkept s.consumer hsees⟩

/-! ## The queue -/

theorem Bridge.Flowing.put (hs : s.Flowing entries fails) (h : s.put = some s') :
    s'.Flowing entries fails := by
  obtain ⟨hstop, ⟨rows, hqueue, hflow⟩, hatEnd, herrors, hlate⟩ := hs
  unfold Bridge.put at h
  split at h
  · rename_i result hproducer
    obtain ⟨q, hput, rfl⟩ := Option.map_eq_some_iff.mp h
    rw [hproducer] at hqueue hflow hatEnd herrors
    refine ⟨hstop, ⟨rows ++ [result], ?_, ?_⟩, False.elim, fun _ => herrors id, hlate⟩
    · show q.items = _
      rw [(BoundedQueue.put_some hput).2.1, hqueue]
      simp [Producer.mark]
    · rw [hflow]
      simp [Producer.hand]
  · rename_i hproducer
    obtain ⟨q, hput, rfl⟩ := Option.map_eq_some_iff.mp h
    rw [hproducer] at hqueue hflow hatEnd herrors
    refine ⟨hstop, ⟨rows, ?_, hflow⟩, fun _ => hatEnd trivial, fun hno => absurd trivial hno, hlate⟩
    show q.items = _
    rw [(BoundedQueue.put_some hput).2.1, hqueue]
    simp [Producer.mark]
  · cases h

theorem Bridge.Stopped.put {closed : Bool} (hs : s.Stopped entries fails closed)
    (h : s.put = some s') : s'.Stopped entries fails closed := by
  obtain ⟨hstop, hgot, hwhole, hlate, -⟩ := hs
  have hclosed : closed = true := by
    by_contra hopen
    rw [Bridge.put, (hwhole (Bool.not_eq_true _ ▸ hopen)).2.2] at h
    cases h
  subst hclosed
  unfold Bridge.put at h
  split at h
  · obtain ⟨q, -, rfl⟩ := Option.map_eq_some_iff.mp h
    exact ⟨hstop, hgot, nofun, hlate, nofun⟩
  · obtain ⟨q, -, rfl⟩ := Option.map_eq_some_iff.mp h
    exact ⟨hstop, hgot, nofun, hlate, nofun⟩
  · cases h

theorem Bridge.Fixed.put (hfixed : s.Fixed fails) (h : s.put = some s') :
    s'.Fixed fails ∧ s'.consumer = s.consumer ∧ s.done = false := by
  unfold Bridge.put at h
  split at h
  · rename_i result hproducer
    obtain ⟨q, hput, rfl⟩ := Option.map_eq_some_iff.mp h
    have hrunning := hfixed.running (hproducer ▸ nofun)
    refine ⟨⟨hfixed.fails, fun hd => ?_, (BoundedQueue.put_some hput).2.2.trans hfixed.maxsize⟩,
      rfl, hrunning⟩
    exact absurd (hrunning.symm.trans hd) Bool.false_ne_true
  · rename_i hproducer
    obtain ⟨q, hput, rfl⟩ := Option.map_eq_some_iff.mp h
    have hrunning := hfixed.running (hproducer ▸ nofun)
    exact ⟨⟨hfixed.fails, fun _ => rfl, (BoundedQueue.put_some hput).2.2.trans hfixed.maxsize⟩,
      rfl, hrunning⟩
  · cases h

theorem Bridge.Facts.put (hs : s.Facts entries fails) (h : s.put = some s') :
    s'.Facts entries fails := by
  obtain ⟨hfixed, hsees⟩ := hs
  obtain ⟨hfixed', hconsumer, hrunning⟩ := hfixed.put h
  have hkept : ∀ c : Consumer ε, c.Sees entries fails s → c.Sees entries fails s' := by
    intro c hc
    cases c with
    | getting => exact Bridge.Flowing.put hc h
    | yielding => exact Bridge.Flowing.put hc h
    | draining closed => exact Bridge.Stopped.put hc h
    | ended closed exc => exact absurd (hrunning.symm.trans hc.2.1) Bool.false_ne_true
  exact ⟨hfixed', hconsumer ▸ hkept s.consumer hsees⟩

/-- The sentinel comes last, so a consumer that gets it has got everything. -/
theorem Bridge.Flowing.sentinel {q : List (Option α)} (hs : s.Flowing entries fails)
    (hitems : s.queue.items = none :: q) :
    s.yielded = entries ∧ s.errorBox = fails.toList ∧ s.producer = .finished := by
  obtain ⟨-, ⟨rows, hqueue, hflow⟩, hatEnd, -, -⟩ := hs
  rw [hitems] at hqueue
  cases rows with
  | nil =>
    cases hproducer : s.producer with
    | finished =>
      rw [hproducer] at hflow hatEnd
      obtain ⟨hrest, hbox⟩ := hatEnd trivial
      refine ⟨?_, hbox, rfl⟩
      rw [hflow, hrest]
      simp [Producer.hand]
    | _ =>
      rw [hproducer] at hqueue
      cases hqueue
  | cons row rows => cases (List.cons.inj hqueue).1

theorem Bridge.Facts.get (hs : s.Facts entries fails) (h : s.get = some s') :
    s'.Facts entries fails := by
  obtain ⟨hfixed, hsees⟩ := hs
  unfold Bridge.get at h
  split at h
  · rename_i hc
    rw [hc] at hsees
    have hs : s.Flowing entries fails := hsees
    obtain ⟨⟨x, q⟩, hget, hnext⟩ := Option.map_eq_some_iff.mp h
    obtain ⟨hitems, hmaxsize⟩ := BoundedQueue.get_some hget
    cases x with
    | some result =>
      obtain rfl := hnext
      refine ⟨⟨hfixed.fails, hfixed.done, hmaxsize.trans hfixed.maxsize⟩, ?_⟩
      obtain ⟨hstop, ⟨rows, hqueue, hflow⟩, hatEnd, herrors, hlate⟩ := hs
      rw [hitems] at hqueue
      cases rows with
      | nil => cases hproducer : s.producer <;> rw [hproducer] at hqueue <;> cases hqueue
      | cons row rows =>
        obtain ⟨hrow, hrest⟩ := List.cons.inj hqueue
        obtain rfl := Option.some.inj hrow
        refine ⟨hstop, ⟨rows, hrest, ?_⟩, hatEnd, herrors, hlate⟩
        rw [hflow]
        simp
    | none =>
      obtain rfl := hnext
      refine ⟨⟨hfixed.fails, hfixed.done, hmaxsize.trans hfixed.maxsize⟩, ?_⟩
      obtain ⟨hall, hbox, hproducer⟩ := hs.sentinel hitems
      exact ⟨rfl, hall ▸ List.prefix_refl _, fun _ => ⟨hall, hbox, hproducer⟩,
        hs.late ▸ Nat.zero_le 1, fun _ _ => hs.late⟩
  · cases h

/-! ## The generator -/

theorem Bridge.Flowing.yielded_prefix (hs : s.Flowing entries fails) : s.yielded <+: entries := by
  obtain ⟨rows, -, hflow⟩ := hs.flow
  rw [hflow, List.append_assoc, List.append_assoc]
  exact List.prefix_append _ _

theorem Bridge.Facts.drain (hs : s.Facts entries fails) (h : s.drain = some s') :
    s'.Facts entries fails := by
  obtain ⟨hfixed, hsees⟩ := hs
  unfold Bridge.drain at h
  split at h
  · rename_i closed hc
    rw [hc] at hsees
    have hs : s.Stopped entries fails closed := hsees
    split at h
    · rename_i hdone
      obtain rfl := Option.some.inj h
      refine ⟨⟨hfixed.fails, hfixed.done, hfixed.maxsize⟩,
        ⟨hs.stop, hs.got, hs.whole, hs.late, hs.last⟩, hdone, ?_⟩
      cases closed with
      | true => rfl
      | false =>
        show s.errorBox.head? = fails
        rw [(hs.whole rfl).2.1]
        cases fails <;> rfl
    · obtain ⟨got, hget, rfl⟩ := Option.map_eq_some_iff.mp h
      refine ⟨⟨hfixed.fails, hfixed.done, (BoundedQueue.get_some hget).2.trans hfixed.maxsize⟩, ?_⟩
      show Consumer.Sees _ _ _ s.consumer
      rw [hc]
      exact ⟨hs.stop, hs.got, hs.whole, hs.late, hs.last⟩
  · cases h

theorem Bridge.Facts.close (hs : s.Facts entries fails) (h : s.close = some s') :
    s'.Facts entries fails := by
  obtain ⟨hfixed, hsees⟩ := hs
  have hstopped : s.Flowing entries fails →
      Bridge.Stopped entries fails true { s with stop := true, consumer := .draining true } :=
    fun hflow => ⟨rfl, hflow.yielded_prefix, nofun, hflow.late ▸ Nat.zero_le 1, fun _ _ => hflow.late⟩
  unfold Bridge.close at h
  split at h
  · rename_i hc
    obtain rfl := Option.some.inj h
    rw [hc] at hsees
    exact ⟨⟨hfixed.fails, hfixed.done, hfixed.maxsize⟩, hstopped hsees⟩
  · rename_i hc
    obtain rfl := Option.some.inj h
    rw [hc] at hsees
    exact ⟨⟨hfixed.fails, hfixed.done, hfixed.maxsize⟩, hstopped hsees⟩
  · cases h

theorem Bridge.Facts.settle (hs : s.Facts entries fails) (hproducer : s.producer = .finished) :
    Bridge.Facts entries fails { s with done := true } := by
  obtain ⟨hfixed, hsees⟩ := hs
  refine ⟨⟨hfixed.fails, fun _ => hproducer, hfixed.maxsize⟩, ?_⟩
  have hkept : ∀ c : Consumer ε, c.Sees entries fails s →
      c.Sees entries fails { s with done := true } := by
    intro c hc
    cases c with
    | getting => exact ⟨hc.stop, hc.flow, hc.atEnd, hc.errors, hc.late⟩
    | yielding => exact ⟨hc.stop, hc.flow, hc.atEnd, hc.errors, hc.late⟩
    | draining closed => exact ⟨hc.stop, hc.got, hc.whole, hc.late, hc.last⟩
    | ended closed exc =>
      exact ⟨⟨hc.1.stop, hc.1.got, hc.1.whole, hc.1.late, hc.1.last⟩, rfl, hc.2.2⟩
  exact hkept s.consumer hsees

theorem Bridge.Facts.step {a : BridgeAction} (hs : s.Facts entries fails)
    (h : s.step a = some s') : s'.Facts entries fails := by
  cases a with
  | produce => exact hs.produce h
  | put => exact hs.put h
  | get => exact hs.get h
  | drain => exact hs.drain h
  | close => exact hs.close h
  | settle =>
    simp only [Bridge.step] at h
    split at h
    · split at h
      · cases h
      · obtain rfl := Option.some.inj h
        exact hs.settle ‹_›
    · cases h
  | next =>
    simp only [Bridge.step] at h
    split at h
    · rename_i hc
      obtain rfl := Option.some.inj h
      obtain ⟨hfixed, hsees⟩ := hs
      rw [hc] at hsees
      have hflow : s.Flowing entries fails := hsees
      exact ⟨⟨hfixed.fails, hfixed.done, hfixed.maxsize⟩,
        ⟨hflow.stop, hflow.flow, hflow.atEnd, hflow.errors, hflow.late⟩⟩
    · cases h

/-! ## Some party can step -/

/-- A party other than the caller of the generator can step. -/
def Bridge.Moves (s : Bridge α ε) : Prop :=
  ∃ a, a ≠ BridgeAction.next ∧ a ≠ .close ∧ (s.step a).isSome = true

/-- With something in its queue the generator goes on, unless it is at a `yield`. -/
theorem Bridge.moves_of_items (hitems : s.queue.items ≠ [])
    (hopen : ∀ closed exc, s.consumer ≠ .ended closed exc) : s.Moves ∨ s.consumer = .yielding := by
  obtain ⟨⟨x, q⟩, hget⟩ := BoundedQueue.get_of_items hitems
  cases hc : s.consumer with
  | getting =>
    left
    cases x with
    | some result => exact ⟨.get, nofun, nofun, by simp [Bridge.step, Bridge.get, hc, hget]⟩
    | none => exact ⟨.get, nofun, nofun, by simp [Bridge.step, Bridge.get, hc, hget]⟩
  | yielding => exact Or.inr rfl
  | draining closed =>
    left
    refine ⟨.drain, nofun, nofun, ?_⟩
    simp only [Bridge.step, Bridge.drain, hc, hget]
    split <;> rfl
  | ended closed exc => exact absurd hc (hopen closed exc)

theorem Bridge.Facts.moves (hs : s.Facts entries fails)
    (hopen : ∀ closed exc, s.consumer ≠ .ended closed exc) : s.Moves ∨ s.consumer = .yielding := by
  have hput : ∀ x : Option α, (s.queue.put x = none → s.Moves ∨ s.consumer = .yielding) := by
    intro x hfull
    have hroom : s.queue.Full := by
      by_contra hroom
      rw [BoundedQueue.put, if_neg hroom] at hfull
      cases hfull
    refine Bridge.moves_of_items (fun hnone => ?_) hopen
    obtain ⟨hbound, hlength⟩ := hroom
    rw [hnone, hs.fixed.maxsize] at hlength
    exact absurd hlength (Nat.not_succ_le_zero 63)
  have hproduce : (s.step .produce).isSome = true → s.Moves ∨ s.consumer = .yielding :=
    fun h => Or.inl ⟨.produce, nofun, nofun, h⟩
  cases hproducer : s.producer with
  | reading =>
    cases hrest : s.rest with
    | nil => exact hproduce (by simp [Bridge.step, Bridge.produce, hproducer, hrest])
    | cons x rest => exact hproduce (by simp [Bridge.step, Bridge.produce, hproducer, hrest])
  | checking result => exact hproduce (by simp [Bridge.step, Bridge.produce, hproducer])
  | offering result => exact hproduce (by simp [Bridge.step, Bridge.produce, hproducer])
  | ending => exact hproduce (by simp [Bridge.step, Bridge.produce, hproducer])
  | putting result =>
    cases hq : s.queue.put (some result) with
    | none => exact hput _ hq
    | some q => exact Or.inl ⟨.put, nofun, nofun, by simp [Bridge.step, Bridge.put, hproducer, hq]⟩
  | puttingSentinel =>
    cases hq : s.queue.put none with
    | none => exact hput _ hq
    | some q => exact Or.inl ⟨.put, nofun, nofun, by simp [Bridge.step, Bridge.put, hproducer, hq]⟩
  | finished =>
    cases hdone : s.done with
    | false => exact Or.inl ⟨.settle, nofun, nofun, by simp [Bridge.step, hproducer, hdone]⟩
    | true =>
      have hsees := hs.sees
      cases hc : s.consumer with
      | getting =>
        rw [hc] at hsees
        obtain ⟨rows, hqueue, -⟩ := Bridge.Flowing.flow hsees
        rw [hproducer] at hqueue
        rw [← hc]
        refine Bridge.moves_of_items ?_ hopen
        rw [hqueue]
        exact List.append_ne_nil_of_right_ne_nil _ nofun
      | yielding => exact Or.inr rfl
      | draining closed =>
        exact Or.inl ⟨.drain, nofun, nofun, by simp [Bridge.step, Bridge.drain, hc, hdone]⟩
      | ended closed exc => exact absurd hc (hopen closed exc)

/-- What is left to do: four points of the thread for each entry, and three for each that
is queued. -/
def Producer.rank (left : ℕ) : Producer α → ℕ
  | .reading => 4 * left + 3
  | .checking _ => 4 * left + 6
  | .offering _ => 4 * left + 5
  | .putting _ => 4 * left + 4
  | .ending => 2
  | .puttingSentinel => 1
  | .finished => 0

def Consumer.rank : Consumer ε → ℕ
  | .yielding => 3
  | .getting => 2
  | .draining _ => 1
  | .ended _ _ => 0

def Bridge.rank (s : Bridge α ε) : ℕ :=
  4 * s.producer.rank s.rest.length + 3 * s.queue.items.length + s.consumer.rank +
    if s.done then 0 else 1

theorem Bridge.put_rank (h : s.put = some s') : s'.rank < s.rank := by
  unfold Bridge.put at h
  split at h
  · rename_i result hproducer
    obtain ⟨q, hput, rfl⟩ := Option.map_eq_some_iff.mp h
    have hlength : q.items.length = s.queue.items.length + 1 := by
      rw [(BoundedQueue.put_some hput).2.1, List.length_append, List.length_singleton]
    simp only [Bridge.rank, hproducer, Producer.rank, hlength]
    omega
  · rename_i hproducer
    obtain ⟨q, hput, rfl⟩ := Option.map_eq_some_iff.mp h
    have hlength : q.items.length = s.queue.items.length + 1 := by
      rw [(BoundedQueue.put_some hput).2.1, List.length_append, List.length_singleton]
    simp only [Bridge.rank, hproducer, Producer.rank, hlength]
    omega
  · cases h

theorem Bridge.produce_rank (h : s.produce = some s') : s'.rank < s.rank := by
  unfold Bridge.produce at h
  split at h
  · rename_i hproducer
    split at h <;> rename_i hrest <;> obtain rfl := Option.some.inj h <;>
      simp only [Bridge.rank, hproducer, hrest, Producer.rank, List.length_cons] <;> omega
  · rename_i result hproducer
    obtain rfl := Option.some.inj h
    simp only [Bridge.rank, hproducer]
    split <;> simp only [Producer.rank] <;> omega
  · rename_i result hproducer
    obtain rfl := Option.some.inj h
    simp only [Bridge.rank, hproducer, Producer.rank]
    omega
  · rename_i hproducer
    obtain rfl := Option.some.inj h
    simp only [Bridge.rank, hproducer, Producer.rank]
    omega
  all_goals cases h

theorem Bridge.get_rank (h : s.get = some s') : s'.rank < s.rank := by
  unfold Bridge.get at h
  split at h
  · rename_i hc
    obtain ⟨⟨x, q⟩, hget, hnext⟩ := Option.map_eq_some_iff.mp h
    have hlength : s.queue.items.length = q.items.length + 1 := by
      rw [(BoundedQueue.get_some hget).1, List.length_cons]
    cases x <;> obtain rfl := hnext <;>
      simp only [Bridge.rank, hc, hlength, Consumer.rank] <;> omega
  · cases h

theorem Bridge.drain_rank (h : s.drain = some s') : s'.rank < s.rank := by
  unfold Bridge.drain at h
  split at h
  · rename_i closed hc
    split at h
    · obtain rfl := Option.some.inj h
      simp only [Bridge.rank, hc, Consumer.rank]
      omega
    · obtain ⟨⟨x, q⟩, hget, rfl⟩ := Option.map_eq_some_iff.mp h
      have hlength : s.queue.items.length = q.items.length + 1 := by
        rw [(BoundedQueue.get_some hget).1, List.length_cons]
      simp only [Bridge.rank, hlength]
      omega
  · cases h

theorem Bridge.step_rank {a : BridgeAction} (h : s.step a = some s') : s'.rank < s.rank := by
  cases a with
  | produce => exact Bridge.produce_rank h
  | put => exact Bridge.put_rank h
  | get => exact Bridge.get_rank h
  | drain => exact Bridge.drain_rank h
  | settle =>
    simp only [Bridge.step] at h
    split at h
    · split at h
      · cases h
      · rename_i hdone
        obtain rfl := Option.some.inj h
        rw [Bridge.rank, Bridge.rank, if_neg hdone]
        exact Nat.lt_succ_self _
    · cases h
  | next =>
    simp only [Bridge.step] at h
    split at h
    · rename_i hc
      obtain rfl := Option.some.inj h
      simp only [Bridge.rank, hc, Consumer.rank]
      omega
    · cases h
  | close =>
    simp only [Bridge.step, Bridge.close] at h
    split at h
    · rename_i hc
      obtain rfl := Option.some.inj h
      simp only [Bridge.rank, hc, Consumer.rank]
      omega
    · rename_i hc
      obtain rfl := Option.some.inj h
      simp only [Bridge.rank, hc, Consumer.rank]
      omega
    · cases h

/-- The parties cannot go on for ever. -/
theorem bridge_terminates {actions : List BridgeAction}
    (hrun : Runs.exec Bridge.step (Bridge.start entries fails) actions = some s) :
    actions.length ≤ 16 * entries.length + 15 := by
  have hle := Runs.exec_length_le (fun _ _ _ h => Bridge.step_rank h) hrun
  have hstart : (Bridge.start entries fails : Bridge α ε).rank =
      4 * (4 * entries.length + 3) + 3 := rfl
  omega

/-! ## The law -/

theorem facts_of_run {actions : List BridgeAction}
    (hrun : Runs.exec Bridge.step (Bridge.start entries fails) actions = some s) :
    s.Facts entries fails := by
  refine Runs.exec_invariant' (I := fun s : Bridge α ε => s.Facts entries fails) ?_ facts_start hrun
  exact fun s a t hs ht => hs.step ht

theorem Bridge.Facts.read_to_end (hs : s.Facts entries fails) {exc : Option ε}
    (hc : s.consumer = .ended false exc) : s.yielded = entries ∧ exc = fails := by
  have hsees := hs.sees
  rw [hc] at hsees
  exact ⟨(hsees.1.whole rfl).1, hsees.2.2⟩

/-- The bridge hands on the entries in their order, all of them and then the exception if
it is read to its end; after a stop one more row is offered at most; and until both the
thread and the generator have ended, some party can step. -/
theorem bridge_faithful {actions : List BridgeAction}
    (hrun : Runs.exec Bridge.step (Bridge.start entries fails) actions = some s) :
    s.yielded <+: entries ∧
    (∀ exc, s.consumer = .ended false exc → s.yielded = entries ∧ exc = fails) ∧
    s.late ≤ 1 ∧
    (s.producer ≠ .finished ∨ (∀ closed exc, s.consumer ≠ .ended closed exc) →
      s.Moves ∨ s.consumer = .yielding ∧
        (s.step .next).isSome = true ∧ (s.step .close).isSome = true) := by
  have hs := facts_of_run hrun
  have hsees := hs.sees
  have hboth : s.yielded <+: entries ∧ s.late ≤ 1 := by
    cases hc : s.consumer with
    | getting =>
      rw [hc] at hsees
      have hflow : s.Flowing entries fails := hsees
      exact ⟨hflow.yielded_prefix, hflow.late ▸ Nat.zero_le 1⟩
    | yielding =>
      rw [hc] at hsees
      have hflow : s.Flowing entries fails := hsees
      exact ⟨hflow.yielded_prefix, hflow.late ▸ Nat.zero_le 1⟩
    | draining closed =>
      rw [hc] at hsees
      have hstopped : s.Stopped entries fails closed := hsees
      exact ⟨hstopped.got, hstopped.late⟩
    | ended closed exc =>
      rw [hc] at hsees
      exact ⟨hsees.1.got, hsees.1.late⟩
  refine ⟨hboth.1, fun exc hc => hs.read_to_end hc, hboth.2, fun hnot => ?_⟩
  · have hopen : ∀ closed exc, s.consumer ≠ .ended closed exc := by
      intro closed exc hc
      rcases hnot with hrunning | hopen
      · rw [hc] at hsees
        exact hrunning (hs.fixed.done hsees.2.1)
      · exact hopen closed exc hc
    refine (hs.moves hopen).imp_right fun hc => ⟨hc, ?_, ?_⟩
    · simp [Bridge.step, hc]
    · simp [Bridge.step, Bridge.close, hc]

/-- Two entries and then an exception, read to the end. -/
def readToEnd : List BridgeAction :=
  [.produce, .produce, .produce, .put, .get, .produce, .produce, .next, .produce, .put, .get,
    .produce, .produce, .put, .next, .get, .settle, .drain]

def readToEndState : Bridge ℕ String :=
  (Runs.exec Bridge.step (Bridge.start [1, 2] (some "truncated")) readToEnd).get (by decide +kernel)

theorem bridge_faithful_readToEnd :
    readToEndState.consumer = .ended false (some "truncated") ∧ readToEndState.yielded = [1, 2] := by
  have hended : readToEndState.consumer = .ended false (some "truncated") := by decide +kernel
  have hrun : Runs.exec Bridge.step (Bridge.start [1, 2] (some "truncated")) readToEnd =
      some readToEndState := (Option.some_get _).symm
  exact ⟨hended, ((bridge_faithful hrun).2.1 _ hended).1⟩

end Facts

end BatchEngine.Core
