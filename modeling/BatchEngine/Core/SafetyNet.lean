import BatchEngine.Core.Drive
import BatchEngine.Core.Lead

/-!
# The safety net of the worker loop

`worker_loop` turns an exception that escapes `process_item` into an error row. The only
exception that can escape is one of the spend check, of a cost method or of its division, and
by then the item has its success row.
-/

set_option autoImplicit false

namespace BatchEngine.Core

open BatchEngine.Providers

variable {R : Type*} {W : WorkerConfig R}

def WorkerInput.raises : WorkerInput R → Bool
  | .reply _ _ raises => raises
  | _ => false

/-- A worker takes the item from the queue and is driven on until it comes to `ws`. -/
structure ItemDrive (W : WorkerConfig R) (p : PromptItem) (wakes : List (Wake R))
    (ws : WorkerState) (books : Books) : Prop where
  taken : ∃ first rest seq tail, wakes = first :: rest ∧
    first.ctx.queue.items = .ticket ⟨seq, .item p⟩ :: tail ∧ ∀ w ∈ rest, w.input ≠ .take
  driven : Runs.exec (driveStep W) (.idle, {}) wakes = some (ws, books)

/-- One row for the item, counted once, and one `task_done`. -/
structure ResolvedOnce (p : PromptItem) (books : Books) : Prop where
  row : ∃ row, books.rows = [row] ∧ row.itemId = p.id
  resolved : books.resolved = 1
  pending : books.pending = -1
  inFlight : books.inFlight = 0
  tasksDone : books.tasksDone = 1

section Job

variable {J : JobRunner R}

theorem mem_wakesOf {i : Fin J.concurrency} {w : Wake R}
    {actions : List (Action R J.concurrency)} : ∀ {s : State J.concurrency},
      w ∈ wakesOf J i s actions → .worker i w.input ∈ actions := by
  induction actions with
  | nil =>
    intro s hw
    cases hw
  | cons a actions ih =>
    intro s hw
    rcases List.mem_append.mp hw with hw | hw
    · obtain ⟨input, hinput, rfl⟩ := Option.map_eq_some_iff.mp (Option.mem_toList.mp hw)
      exact List.mem_cons.mpr (Or.inl (turnOf_some hinput).symm)
    · cases hstep : step J s a with
      | none =>
        rw [hstep] at hw
        cases hw
      | some t =>
        rw [hstep] at hw
        exact List.mem_cons_of_mem a (ih hw)

/-- In a run of the job, from where a worker takes an item until it takes the next, the worker
is driven with that item. -/
theorem run_itemDrive {i : Fin J.concurrency} {s s' : State J.concurrency}
    {actions : List (Action R J.concurrency)} {seq : ℕ} {p : PromptItem} {tail : List Queued}
    (hrun : Runs.exec (step J) s (.worker i .take :: actions) = some s')
    (hidle : s.workers i = .idle) (hqueue : s.ctx.queue.items = .ticket ⟨seq, .item p⟩ :: tail)
    (hrest : .worker i .take ∉ actions) :
    ∃ books, ItemDrive J.toWorkerConfig p (wakesOf J i s (.worker i .take :: actions))
      (s'.workers i) books := by
  obtain ⟨books, hdriven⟩ := run_drives i {} hrun
  obtain ⟨t, ht, -⟩ := Runs.exec_cons_iff.mp hrun
  rw [hidle] at hdriven
  refine ⟨books, ⟨⟨s.ctx, .take⟩, wakesOf J i t actions, seq, tail, ?_, hqueue, ?_⟩, hdriven⟩
  · simp only [wakesOf, ht, Action.turnOf, if_pos, Option.map_some, Option.toList_some]
    rfl
  · intro w hw htake
    have hmem := mem_wakesOf hw
    rw [htake] at hmem
    exact hrest hmem

end Job

/-! ## While the item is in hand -/

/-- The books of a worker that has not let go of its item. -/
def openBooks (ws : WorkerState) : Books := { inFlight := ws.flight }

/-- The books of a worker that has let go of it with these rows. -/
def closedBooks (rows : List Row) : Books where
  rows := rows
  resolved := rows.length
  pending := -rows.length
  tasksDone := 1

theorem turn_pops {ctx ctx' : WorkerContext} {ws ws' : WorkerState} {input : WorkerInput R}
    {e : Effect} (hturn : Turn W ctx ctx' ws input ws' e) (hinput : input ≠ .take) :
    e.pops = [] := by
  cases hturn with
  | shutdown => exact absurd rfl hinput
  | passed => exact absurd rfl hinput
  | taken _ => exact absurd rfl hinput
  | asked hloop => exact (loopTurn_settles hloop).1
  | looped hloop => exact (loopTurn_settles hloop).1
  | replied hcall => exact (callTurn_settles hcall).1
  | resumed hretry => exact (retryTurn_settles hretry).1
  | _ => rfl

/-- Only a sentinel makes a worker return. -/
theorem turn_returned {ctx ctx' : WorkerContext} {ws : WorkerState} {input : WorkerInput R}
    {e : Effect} (hturn : Turn W ctx ctx' ws input .returned e) : e.pops = [.shutdown] := by
  cases hturn with
  | shutdown => rfl
  | taken hloop => cases hloop
  | asked hloop => cases hloop
  | looped hloop => cases hloop
  | replied hcall =>
    cases hcall with
    | failed _ _ hretry => cases hretry
  | resumed hretry => cases hretry

theorem held_zero_iff (ws : WorkerState) : ws.held = 0 ↔ ws = .idle ∨ ws = .returned := by
  cases ws <;> simp [WorkerState.held, WorkerState.hand]

/-- What a turn with an item in hand, or just taken, enters in the books: nothing while it
keeps the item, and else the rows that settle it. -/
theorem turn_books {ctx ctx' : WorkerContext} {ws ws' : WorkerState} {n : ℕ} {i : Fin n}
    {input : WorkerInput R} {e : Effect} {t : Ticket} (hturn : Turn W ctx ctx' ws input ws' e)
    (hheld : ws.held + (tickets e.pops : Multiset Ticket) = {t}) (hshutdown : ws' ≠ .returned) :
    (ws'.held = {t} ∧ (openBooks ws).add (e.books ws') = openBooks ws' ∧
      (Action.worker i input).raisesInCheck = false) ∨
    (ws' = .idle ∧ (openBooks ws).add (e.books ws') = closedBooks e.rows ∧
      Settles {t} e.rows (Action.worker i input).raisesInCheck) := by
  obtain ⟨out, hsettles, hcustody⟩ := turn_settles (i := i) hturn
  have hflight := turn_flight hturn
  have hadd : (openBooks ws).add (e.books ws') =
      ⟨e.rows, e.rows.length, -e.rows.length, ws'.flight, ws'.reports⟩ := by
    simp [openBooks, Effect.books, Books.add, add_comm ws.flight, hflight]
  rw [hadd]
  rw [hheld] at hcustody
  have hout : ∀ t', out = {t'} → ws' = .idle ∧ t' = t := by
    rintro t' rfl
    have hcard := congrArg Multiset.card hcustody
    rw [Multiset.card_add, Multiset.card_singleton, Multiset.card_singleton] at hcard
    have hnone : ws'.held = 0 := Multiset.card_eq_zero.mp (by omega)
    rw [hnone, zero_add, Multiset.singleton_inj] at hcustody
    exact ⟨((held_zero_iff ws').mp hnone).resolve_right hshutdown, hcustody.symm⟩
  generalize hrows : e.rows = rows at hsettles ⊢
  generalize (Action.worker i input).raisesInCheck = raises at hsettles ⊢
  cases hsettles with
  | keeps =>
    rw [add_zero] at hcustody
    refine Or.inl ⟨hcustody.symm, ?_, rfl⟩
    have hreports : ws'.reports = 0 := by
      unfold WorkerState.reports
      unfold WorkerState.held at hcustody
      cases hhand : ws'.hand with
      | some h => rfl
      | none =>
        rw [hhand] at hcustody
        exact absurd hcustody (Multiset.singleton_ne_zero t)
    rw [hreports]
    rfl
  | once hid =>
    obtain ⟨rfl, rfl⟩ := hout _ rfl
    exact Or.inr ⟨rfl, rfl, .once hid⟩
  | twice hid hid' =>
    obtain ⟨rfl, rfl⟩ := hout _ rfl
    exact Or.inr ⟨rfl, rfl, .twice hid hid'⟩

/-- The end of a drive: the item is still in hand and nothing is entered, or it is settled,
twice exactly if its spend check has raised. -/
inductive Ends (t : Ticket) (wakes : List (Wake R)) (ws : WorkerState) (books : Books) : Prop
  | inHand (hheld : ws.held = {t}) (hbooks : books = openBooks ws)
      (hquiet : ∀ w ∈ wakes, w.input.raises = false)
  | settled {rows : List Row} {raises : Bool} (hidle : ws = .idle)
      (hsettles : Settles {t} rows raises) (hbooks : books = closedBooks rows)
      (hraises : raises = false ↔ ∀ w ∈ wakes, w.input.raises = false)

theorem raisesInCheck_eq {n : ℕ} (i : Fin n) (input : WorkerInput R) :
    (Action.worker i input).raisesInCheck = input.raises := by
  cases input <;> rfl

/-- A worker that is idle can only take. -/
theorem idle_stops {p q : WorkerState × Books} {w : Wake R} (hidle : p.1 = .idle)
    (hinput : w.input ≠ .take) : driveStep W p w ≠ some q := by
  intro h
  obtain ⟨ctx', e, hstep, -, -⟩ := driveStep_turn h
  rw [hidle] at hstep
  cases hw : w.input with
  | take => exact hinput hw
  | wake u => rw [hw] at hstep; cases hstep
  | reply r u raises => rw [hw] at hstep; cases hstep

/-- A drive that goes on from a turn with the item in hand, or just taken. -/
theorem ends_of_turn {t : Ticket} {w : Wake R} {wakes : List (Wake R)} {ws wsm ws' : WorkerState}
    {ctx' : WorkerContext} {e : Effect} {books : Books}
    (hturn : Turn W w.ctx ctx' ws w.input wsm e)
    (hheld : ws.held + (tickets e.pops : Multiset Ticket) = {t}) (hshutdown : wsm ≠ .returned)
    (hinputs : ∀ w ∈ wakes, w.input ≠ .take)
    (hdrive : Runs.exec (driveStep W) (wsm, (openBooks ws).add (e.books wsm)) wakes =
      some (ws', books))
    (hrest : wsm.held = {t} → Runs.exec (driveStep W) (wsm, openBooks wsm) wakes =
      some (ws', books) → Ends t wakes ws' books) : Ends t (w :: wakes) ws' books := by
  rcases turn_books (i := (0 : Fin 1)) hturn hheld hshutdown with
    ⟨hkept, hbooks, hquiet⟩ | ⟨rfl, hbooks, hsettles⟩
  · rw [raisesInCheck_eq] at hquiet
    rw [hbooks] at hdrive
    cases hrest hkept hdrive with
    | inHand hheld' hbooks' hquiet' =>
      exact .inHand hheld' hbooks' (List.forall_mem_cons.mpr ⟨hquiet, hquiet'⟩)
    | settled hidle hsettles hbooks' hraises =>
      refine .settled hidle hsettles hbooks' ?_
      rw [List.forall_mem_cons, and_iff_right hquiet]
      exact hraises
  · rw [raisesInCheck_eq] at hsettles
    cases wakes with
    | cons w' wakes =>
      obtain ⟨q, hnext, -⟩ := Runs.exec_cons_iff.mp hdrive
      exact absurd hnext (idle_stops rfl (hinputs w' List.mem_cons_self))
    | nil =>
      obtain ⟨rfl, rfl⟩ := Prod.mk.inj (Option.some.inj hdrive)
      exact .settled rfl hsettles hbooks (by simp)

theorem drive_ends {t : Ticket} {wakes : List (Wake R)} : ∀ {ws ws' : WorkerState} {books : Books},
    ws.held = {t} → (∀ w ∈ wakes, w.input ≠ .take) →
      Runs.exec (driveStep W) (ws, openBooks ws) wakes = some (ws', books) →
        Ends t wakes ws' books := by
  induction wakes with
  | nil =>
    intro ws ws' books hheld _ h
    obtain ⟨rfl, rfl⟩ := Prod.mk.inj (Option.some.inj h)
    exact .inHand hheld rfl fun w hw => absurd hw List.not_mem_nil
  | cons w wakes ih =>
    intro ws ws' books hheld hinputs h
    obtain ⟨hinput, hrest⟩ := List.forall_mem_cons.mp hinputs
    obtain ⟨⟨wsm, booksm⟩, hfirst, hdrive⟩ := Runs.exec_cons_iff.mp h
    obtain ⟨ctx', e, -, hturn, -, hbooks⟩ := driveStep_turn hfirst
    have hpops := turn_pops hturn hinput
    have hshutdown : wsm ≠ .returned := by
      rintro rfl
      rw [turn_returned hturn] at hpops
      cases hpops
    rw [show booksm = _ from hbooks] at hdrive
    refine ends_of_turn hturn ?_ hshutdown hrest hdrive fun hkept hgoes => ih hkept hrest hgoes
    rw [hpops, hheld]
    exact add_zero _

/-- The first turn takes the item. -/
theorem turn_takes {ctx ctx' : WorkerContext} {ws' : WorkerState} {input : WorkerInput R}
    {e : Effect} {seq : ℕ} {p : PromptItem} {tail : List Queued}
    (hturn : Turn W ctx ctx' .idle input ws' e) (hdoes : Does ctx ctx' e)
    (hqueue : ctx.queue.items = .ticket ⟨seq, .item p⟩ :: tail) :
    e.pops = [.ticket ⟨seq, .item p⟩] := by
  have hitems := hdoes.queue
  rw [hqueue] at hitems
  cases hturn with
  | shutdown => cases hitems
  | passed => cases hitems
  | taken hloop =>
    exact congrArg (fun x => [x]) (List.cons.inj hitems).1.symm

/-- The drive of an item ends as `Ends` says. -/
theorem ItemDrive.ends {p : PromptItem} {wakes : List (Wake R)} {ws : WorkerState} {books : Books}
    (h : ItemDrive W p wakes ws books) : ∃ seq, Ends ⟨seq, .item p⟩ wakes ws books := by
  obtain ⟨first, rest, seq, tail, rfl, hqueue, hinputs⟩ := h.taken
  refine ⟨seq, ?_⟩
  obtain ⟨⟨wsm, booksm⟩, hfirst, hdrive⟩ := Runs.exec_cons_iff.mp h.driven
  obtain ⟨ctx', e, -, hturn, hdoes, hbooks⟩ := driveStep_turn hfirst
  have hpops := turn_takes hturn hdoes hqueue
  have hshutdown : wsm ≠ .returned := by
    rintro rfl
    rw [turn_returned hturn] at hpops
    cases hpops
  rw [show booksm = _ from hbooks] at hdrive
  refine ends_of_turn hturn ?_ hshutdown hinputs hdrive fun hkept hgoes =>
    drive_ends hkept hinputs hgoes
  rw [hpops]
  rfl

/-! ## The law -/

/-- An item that a worker has let go of is resolved exactly once if and only if its spend check
has not raised; until then nothing is entered for it but its open call. -/
theorem resolved_once_iff {p : PromptItem} {wakes : List (Wake R)} {ws : WorkerState}
    {books : Books} (h : ItemDrive W p wakes ws books) :
    (ws.hand = none → (ResolvedOnce p books ↔ ∀ w ∈ wakes, w.input.raises = false)) ∧
      (ws.hand ≠ none → books = { inFlight := ws.flight }) := by
  obtain ⟨seq, hends⟩ := h.ends
  cases hends with
  | inHand hheld hbooks _ =>
    refine ⟨fun hnone => ?_, fun _ => hbooks⟩
    rw [WorkerState.held, hnone] at hheld
    exact absurd hheld.symm (Multiset.singleton_ne_zero _)
  | settled hidle hsettles hbooks hraises =>
    refine ⟨fun _ => ?_, fun hsome => absurd (by rw [hidle]; rfl) hsome⟩
    rw [← hraises, hbooks]
    generalize hout : ({⟨seq, .item p⟩} : Multiset Ticket) = out at hsettles
    cases hsettles with
    | keeps => exact absurd hout (Multiset.singleton_ne_zero _)
    | once hid =>
      obtain rfl := Multiset.singleton_inj.mp hout
      exact iff_of_true ⟨⟨_, rfl, hid⟩, rfl, rfl, rfl, rfl⟩ rfl
    | twice hid hid' =>
      refine iff_of_false (fun hresolved => ?_) (by decide)
      have htwo : (2 : ℤ) = 1 := hresolved.resolved
      exact absurd htwo (by decide)

/-- The job of `unpriced` when its prompt is queued, behind 49 rows that are done. -/
def unpricedQueued : State unpriced.concurrency :=
  (Runs.exec (step unpriced) (unpriced.start 0 0)
    (.runner false :: readAndTake 1 49 ++ List.replicate 3 (.runner false))).get (by decide +kernel)

def unpricedCalling : State unpriced.concurrency :=
  (step unpriced unpricedQueued takeOne).get (by decide +kernel)

/-- The turns of its worker: the prompt is taken, and answered by a 200. -/
def unpricedWakes (raises : Bool) : List (Wake CallResult) :=
  [⟨unpricedQueued.ctx, .take⟩,
    ⟨unpricedCalling.ctx, .reply (.returned { statusCode := 200, text := "hi" }) 0 raises⟩]

def unpricedDriven (raises : Bool) : WorkerState × Books :=
  (Runs.exec (driveStep unpriced.toWorkerConfig) (.idle, {}) (unpricedWakes raises)).get
    (by cases raises <;> decide +kernel)

theorem unpriced_drive (raises : Bool) : ItemDrive unpriced.toWorkerConfig ⟨"a", "hello"⟩
    (unpricedWakes raises) .idle (unpricedDriven raises).2 where
  taken := by
    refine ⟨_, _, 49, [], rfl, by decide +kernel, fun w hw htake => ?_⟩
    rw [List.mem_singleton.mp hw] at htake
    cases htake
  driven := by
    have hidle : (unpricedDriven raises).1 = .idle := by cases raises <;> decide +kernel
    have hdriven : Runs.exec (driveStep unpriced.toWorkerConfig) (.idle, {})
        (unpricedWakes raises) = some (unpricedDriven raises) := (Option.some_get _).symm
    rw [hdriven]
    exact congrArg some (Prod.ext hidle rfl)

/-- The raise makes two rows of the one prompt. -/
theorem resolved_twice : ∃ (W : WorkerConfig CallResult) (p : PromptItem)
    (wakes : List (Wake CallResult)) (books : Books),
    ItemDrive W p wakes .idle books ∧ ¬ ResolvedOnce p books := by
  refine ⟨unpriced.toWorkerConfig, ⟨"a", "hello"⟩, unpricedWakes true, (unpricedDriven true).2,
    unpriced_drive true, fun hresolved => ?_⟩
  have htwo : (unpricedDriven true).2.resolved = 2 := by decide +kernel
  rw [hresolved.resolved] at htwo
  exact absurd htwo (by decide)

theorem resolved_once_iff_unpriced : ResolvedOnce ⟨"a", "hello"⟩ (unpricedDriven false).2 := by
  refine ((resolved_once_iff (unpriced_drive false)).1 rfl).mpr fun w hw => ?_
  rcases List.mem_pair.mp hw with rfl | rfl <;> rfl

end BatchEngine.Core
