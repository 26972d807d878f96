import BatchEngine.Core.Stop
import BatchEngine.Core.Timeline

/-!
# The pause at a reset header

A worker whose call is answered by a 429 with a reset header sleeps until the reset. The
sleep is its own: nothing tells the other workers of the reset, and they go on asking for
tokens.
-/

set_option autoImplicit false

namespace BatchEngine.Core

open Py (PyFloat)
open BatchEngine.Providers

variable {R : Type*} {W : WorkerConfig R}

/-- The reset that a 429 announces, when its header is a number. -/
def announced : Outcome → Option PyFloat
  | .transportError => none
  | .response resp =>
    if resp.statusCode = 429 then
      (Dict.get? resp.headers "x-ratelimit-reset-requests").bind Py.floatOfString
    else none

/-- The reset is later than this reading of the wall clock. -/
def Ahead (reset : PyFloat) (wall : ℚ) : Prop :=
  match reset with
  | .fin q => wall < q
  | .posInf => True
  | _ => False

instance (reset : PyFloat) (wall : ℚ) : Decidable (Ahead reset wall) := by
  unfold Ahead
  split <;> infer_instance

/-- A state, and the announcements that were ahead when they came, each with its worker. -/
abbrev Announcing (J : JobRunner R) :=
  State J.concurrency × List (Fin J.concurrency × PyFloat)

def pauseStep (J : JobRunner R) : Announcing J → Action R J.concurrency → Option (Announcing J) :=
  Runs.withHistory (step J) fun s a _ resets =>
    match a with
    | .worker i input =>
      match (input.answer J.toWorkerConfig).bind announced with
      | some reset => if Ahead reset s.ctx.wall then resets ++ [(i, reset)] else resets
      | none => resets
    | _ => resets

/-- The step starts no call while an announced reset is ahead. -/
def HardPaused (J : JobRunner R) (p : Announcing J) (a : Action R J.concurrency) : Prop :=
  ∀ q, pauseStep J p a = some q → q.1.ctx.calls ≠ p.1.ctx.calls →
    ∀ m ∈ p.2, ¬ Ahead m.2 p.1.ctx.wall

/-- The bucket has a token. -/
def Granted (ctx : WorkerContext) : Prop := (ctx.controller.bucket.acquire ctx.now).1 = none

/-- From the top of the retry loop the worker comes to a call. -/
def GoesOn (ctx : WorkerContext) : Prop :=
  ctx.cancelEvent = false ∧ ctx.abortEvent = false ∧
    (ctx.circuitBreaker.allowRequest ctx.now).1 = true ∧ Granted ctx

/-- A turn of a worker in this state starts a call. -/
def Dispatches (ctx : WorkerContext) : WorkerState → Prop
  | .idle => (∃ seq p tail, ctx.queue.items = .ticket ⟨seq, .item p⟩ :: tail) ∧ GoesOn ctx
  | .breakerWait _ _ => GoesOn ctx
  | .backoff _ _ => GoesOn ctx
  | .acquiring _ _ => Granted ctx
  | _ => False

/-- A worker that starts a call knows of every reset that is ahead. -/
def OwnResetsOnly (J : JobRunner R) (p : Announcing J) (a : Action R J.concurrency) : Prop :=
  ∀ q, pauseStep J p a = some q → ∀ i input, a = .worker i input →
    Dispatches p.1.ctx (p.1.workers i) → ∀ m ∈ p.2, Ahead m.2 p.1.ctx.wall → m.1 = i

/-- The wall clock reads a time since the epoch and goes no slower than the monotonic one. -/
def KeepsTime (J : JobRunner R) (p : Announcing J) (a : Action R J.concurrency) : Prop :=
  0 ≤ p.1.ctx.wall ∧ ∀ dt wall, a = .tick dt wall → p.1.ctx.wall + dt ≤ wall

/-! ## The turn that starts a call -/

theorem acquirePass_calls (ctx : WorkerContext) (h : InHand) :
    (acquirePass ctx h).1.calls ≠ ctx.calls ↔ Granted ctx := by
  have hbranch := acquirePass_branch ctx h
  generalize acquirePass ctx h = next at hbranch ⊢
  cases hbranch with
  | granted hgrant =>
    refine iff_of_true (fun hsame => ?_) (congrArg Prod.fst hgrant)
    exact absurd (List.append_right_eq_self.mp hsame) (List.cons_ne_nil _ _)
  | waits hwait =>
    refine iff_of_false (fun hne => hne rfl) fun hgranted => ?_
    exact Option.some_ne_none _ ((congrArg Prod.fst hwait).symm.trans hgranted)

theorem loopTop_calls (ctx : WorkerContext) (h : InHand) :
    (loopTop ctx h).1.calls ≠ ctx.calls ↔ GoesOn ctx := by
  have hbranch := loopTop_branch ctx h
  generalize loopTop ctx h = next at hbranch ⊢
  cases hbranch with
  | cancelled hcancel =>
    refine iff_of_false (fun hne => hne rfl) fun hgo => ?_
    exact Bool.false_ne_true (hgo.1.symm.trans hcancel)
  | aborted _ habort =>
    refine iff_of_false (fun hne => hne rfl) fun hgo => ?_
    exact Bool.false_ne_true (hgo.2.1.symm.trans habort)
  | refused _ _ hask =>
    refine iff_of_false (fun hne => hne rfl) fun hgo => ?_
    exact Bool.false_ne_true (hask.symm.trans hgo.2.2.1)
  | allowed hcancel habort hask =>
    have hpass := acquirePass_calls
      (ctx.withBreaker (ctx.circuitBreaker.allowRequest ctx.now).2)
      { h with attempt := h.attempt + 1 }
    exact hpass.trans ⟨fun hgrant => ⟨hcancel, habort, hask, hgrant⟩, fun hgo => hgo.2.2.2⟩

theorem takeItem_calls (ctx : WorkerContext) (x : Queued) :
    (takeItem ctx x).1.calls ≠ ctx.calls ↔ (∃ seq p, x = .ticket ⟨seq, .item p⟩) ∧ GoesOn ctx := by
  match x with
  | .shutdown => simp [takeItem, WorkerContext.withQueue]
  | .ticket ⟨_, .error e⟩ => simp [takeItem, finish, passError, WorkerContext.withQueue]
  | .ticket ⟨seq, .item p⟩ =>
    rw [and_iff_right ⟨seq, p, rfl⟩]
    exact loopTop_calls ctx ⟨seq, p, 0⟩

theorem retryTurn_calls {h : InHand} {ws' : WorkerState} {e : Effect} (hturn : RetryTurn h ws' e) :
    e.calls = [] := by
  cases hturn <;> rfl

theorem callTurn_calls {ctx' : WorkerContext} {h : InHand} {outcome : Outcome} {raises : Bool}
    {ws' : WorkerState} {e : Effect} (hturn : CallTurn W ctx' h outcome raises ws' e) :
    e.calls = [] := by
  cases hturn with
  | failed _ _ hretry => exact retryTurn_calls hretry
  | _ => rfl

/-- Whether a turn starts a call is decided by what the worker finds when it wakes. -/
theorem workerStep_calls {ctx : WorkerContext} {ws : WorkerState} {input : WorkerInput R}
    {next : Next} (hstep : workerStep W ctx ws input = some next) :
    next.1.calls ≠ ctx.calls ↔ Dispatches ctx ws := by
  cases workerStep_branch hstep with
  | @took x q hget =>
    have hitems := (BoundedQueue.get_some hget).1
    have hhead : (∃ seq p, x = .ticket ⟨seq, .item p⟩) ↔
        ∃ seq p tail, ctx.queue.items = .ticket ⟨seq, .item p⟩ :: tail := by
      rw [hitems]
      simp
    exact (takeItem_calls (ctx.withQueue q) x).trans (and_congr hhead Iff.rfl)
  | asked _ => exact loopTop_calls ctx _
  | acquired _ => exact acquirePass_calls ctx _
  | replied _ hcall =>
    obtain ⟨e, hturn, hdoes⟩ := callBranch_turn hcall
    refine iff_of_false (fun hne => hne ?_) id
    rw [hdoes.calls, callTurn_calls hturn]
    exact List.append_nil _
  | jittered _ _ => exact iff_of_false (fun hne => hne rfl) id
  | @resumed h wake u f _ _ =>
    obtain ⟨e, hturn, hdoes⟩ := retryOrFail_turn W ctx h f u
    refine iff_of_false (fun hne => hne ?_) id
    rw [hdoes.calls, retryTurn_calls hturn, List.append_nil]
  | looped _ => exact loopTop_calls ctx _

/-! ## The sleep of a worker -/

/-- The worker sleeps, and does not wake before the reset. -/
inductive Sleeps (ctx : WorkerContext) : WorkerState → PyFloat → Prop
  | until {h : InHand} {wake : ℚ} {f : Failure} {q : ℚ}
      (hwake : q ≤ ctx.wall + (wake - ctx.now)) : Sleeps ctx (.resetWait h (some wake) f) (.fin q)
  | forever {h : InHand} {f : Failure} : Sleeps ctx (.resetWait h none f) .posInf

/-- It is over only when the reset is no longer ahead. -/
theorem sleeps_wakes {ctx : WorkerContext} {ws : WorkerState} {reset : PyFloat}
    (hs : Sleeps ctx ws reset) {input : WorkerInput R} {next : WorkerContext × WorkerState}
    (hstep : workerStep W ctx ws input = some next) : ¬ Ahead reset ctx.wall := by
  cases hs with
  | «until» hwake =>
    cases workerStep_branch hstep with
    | jittered hbefore _ =>
      show ¬ _ < _
      linarith
  | forever => cases workerStep_branch hstep

theorem Ahead.mono {reset : PyFloat} {wall wall' : ℚ} (h : Ahead reset wall') (hle : wall ≤ wall') :
    Ahead reset wall := by
  cases reset with
  | fin q => exact lt_of_le_of_lt hle h
  | posInf => trivial
  | negInf => exact h
  | nan => exact h

theorem Sleeps.tick {ctx : WorkerContext} {ws : WorkerState} {reset : PyFloat}
    (hs : Sleeps ctx ws reset) {dt wall : ℚ} (hwall : ctx.wall + dt ≤ wall) :
    Sleeps { ctx with now := ctx.now + dt, wall := wall } ws reset := by
  cases hs with
  | @«until» h wake f q hwake =>
    refine .until ?_
    show q ≤ wall + (wake - (ctx.now + dt))
    linarith
  | forever => exact .forever

theorem Sleeps.congr {ctx ctx' : WorkerContext} {ws : WorkerState} {reset : PyFloat}
    (hs : Sleeps ctx ws reset) (hnow : ctx'.now = ctx.now) (hwall : ctx'.wall = ctx.wall) :
    Sleeps ctx' ws reset := by
  cases hs with
  | «until» hwake => exact .until (by rwa [hnow, hwall])
  | forever => exact .forever

/-! ## The answer that sends it to sleep -/

theorem announced_some {o : Outcome} {reset : PyFloat} (h : announced o = some reset) :
    ∃ resp header, o = .response resp ∧ resp.statusCode = 429 ∧
      Dict.get? resp.headers "x-ratelimit-reset-requests" = some header ∧
        Py.floatOfString header = some reset := by
  cases o with
  | transportError => cases h
  | response resp =>
    simp only [announced] at h
    split at h
    · obtain ⟨header, hheader, hfloat⟩ := Option.bind_eq_some_iff.mp h
      exact ⟨resp, header, rfl, ‹_›, hheader, hfloat⟩
    · cases h

/-- The code reads the header as the reset that it announces. -/
theorem resetEpoch_announced {o : Outcome} {reset : PyFloat} (h : announced o = some reset)
    {wall : ℚ} (hwall : 0 ≤ wall) (hahead : Ahead reset wall) : resetEpoch o = some reset := by
  obtain ⟨resp, header, rfl, -, hheader, hfloat⟩ := announced_some h
  have hempty : header ≠ "" := by
    rintro rfl
    have hnone : Py.floatOfString "" = none := by decide +kernel
    rw [hnone] at hfloat
    cases hfloat
  simp only [resetEpoch, hheader, if_neg hempty, hfloat]
  cases reset with
  | fin q => exact if_pos (lt_of_le_of_lt hwall hahead)
  | posInf => rfl
  | negInf => exact hahead.elim
  | nan => exact hahead.elim

theorem classify_announced {o : Outcome} {reset : PyFloat} (h : announced o = some reset) :
    (classify o).1 = .throttled := by
  obtain ⟨resp, header, rfl, hstatus, -, -⟩ := announced_some h
  have hclass : classify (.response resp) = (.throttled, 8) := by
    simp only [classify, hstatus]
    rfl
  rw [hclass]

/-- A reset that is ahead is waited for: until it, or for ever. -/
theorem resetPause_ahead {reset : PyFloat} {wall : ℚ} (hahead : Ahead reset wall) :
    (∃ q, reset = .fin q ∧ resetPause reset wall = some (some (q - wall))) ∨
      (reset = .posInf ∧ resetPause reset wall = some none) := by
  cases reset with
  | fin q =>
    have hlater : wall < q := hahead
    have hwait : max 0 (q - wall) = q - wall := max_eq_right (sub_nonneg.mpr (le_of_lt hlater))
    refine Or.inl ⟨q, rfl, ?_⟩
    rw [resetPause, hwait]
    exact if_pos (sub_pos.mpr hlater)
  | posInf => exact Or.inr ⟨rfl, rfl⟩
  | negInf => exact hahead.elim
  | nan => exact hahead.elim

theorem afterFailure_sleeps (W : WorkerConfig R) {ctx : WorkerContext} (h : InHand) {o : Outcome}
    {reset : PyFloat} (hann : announced o = some reset) (hwall : 0 ≤ ctx.wall)
    (hahead : Ahead reset ctx.wall) (u : ℚ) :
    Sleeps (afterFailure W ctx h o (.of o) u).1 (afterFailure W ctx h o (.of o) u).2 reset := by
  have hclass : (Failure.of o).failureClass = .throttled := classify_announced hann
  have hepoch := resetEpoch_announced hann hwall hahead
  have hbranch := afterFailure_branch W ctx h o (.of o) u
  generalize afterFailure W ctx h o (.of o) u = next at hbranch ⊢
  cases hbranch with
  | fatal hfatal =>
    rw [hclass] at hfatal
    cases hfatal
  | jittered _ hreset hpause =>
    obtain rfl := Option.some.inj (hepoch.symm.trans hreset)
    rcases resetPause_ahead hahead with ⟨q, -, hpaused⟩ | ⟨-, hpaused⟩
    · cases hpaused.symm.trans hpause
    · cases hpaused.symm.trans hpause
  | hung _ hreset hpause =>
    obtain rfl := Option.some.inj (hepoch.symm.trans hreset)
    rcases resetPause_ahead hahead with ⟨q, -, hpaused⟩ | ⟨rfl, -⟩
    · cases hpaused.symm.trans hpause
    · exact .forever
  | paused _ hreset hpause =>
    obtain rfl := Option.some.inj (hepoch.symm.trans hreset)
    rcases resetPause_ahead hahead with ⟨q, rfl, hpaused⟩ | ⟨-, hpaused⟩
    · cases hpaused.symm.trans hpause
      refine .until ?_
      show q ≤ ctx.wall + (ctx.now + (q - ctx.wall) - ctx.now)
      linarith
    · cases hpaused.symm.trans hpause
  | throttled _ hreset => cases hepoch.symm.trans hreset
  | failed _ hnot => exact absurd hclass hnot

theorem callBranch_sleeps {ctx : WorkerContext} {h : InHand} {start u : ℚ} {r : R} {raises : Bool}
    {next : Next} (hcall : CallBranch W ctx h start r u raises next) {reset : PyFloat}
    (hann : announced (outcomeOf (W.provider.complete r)) = some reset) (hwall : 0 ≤ ctx.wall)
    (hahead : Ahead reset ctx.wall) : Sleeps next.1 next.2 reset := by
  have hclass := classify_announced hann
  cases hcall with
  | succeeded _ hsuccess => cases hclass.symm.trans hsuccess
  | raised _ hsuccess _ => cases hclass.symm.trans hsuccess
  | failed _ =>
    have hwall' : 0 ≤ (recordOutcome ctx (classify (outcomeOf (W.provider.complete r))).1).wall :=
      hwall
    exact afterFailure_sleeps W h hann hwall' hahead u

theorem workerStep_sleeps {ctx : WorkerContext} {ws : WorkerState} {input : WorkerInput R}
    {next : Next} (hstep : workerStep W ctx ws input = some next) {reset : PyFloat}
    (hann : (input.answer W).bind announced = some reset) (hwall : 0 ≤ ctx.wall)
    (hahead : Ahead reset ctx.wall) : Sleeps next.1 next.2 reset := by
  cases workerStep_branch hstep with
  | replied _ hcall => exact callBranch_sleeps hcall hann hwall hahead
  | _ => cases hann

/-! ## The run of a job -/

section Job

variable {J : JobRunner R}

/-- Whoever has announced a reset that is still ahead is asleep. -/
def Asleep (J : JobRunner R) (p : Announcing J) : Prop :=
  ∀ m ∈ p.2, Ahead m.2 p.1.ctx.wall → Sleeps p.1.ctx (p.1.workers m.1) m.2

theorem pauseStep_worker {p q : Announcing J} {i : Fin J.concurrency} {input : WorkerInput R}
    (h : pauseStep J p (.worker i input) = some q) :
    ∃ ctx' ws', workerStep J.toWorkerConfig p.1.ctx (p.1.workers i) input = some (ctx', ws') ∧
      q.1 = { p.1 with ctx := ctx', workers := Function.update p.1.workers i ws' } ∧
      ∀ m ∈ q.2, m ∈ p.2 ∨ m.1 = i ∧
        (input.answer J.toWorkerConfig).bind announced = some m.2 ∧ Ahead m.2 p.1.ctx.wall := by
  obtain ⟨hstep, hresets⟩ := Runs.withHistory_some.mp h
  obtain ⟨⟨ctx', ws'⟩, hworker, hnext⟩ := Option.map_eq_some_iff.mp hstep
  refine ⟨ctx', ws', hworker, hnext.symm, fun m hm => ?_⟩
  rw [hresets] at hm
  dsimp only at hm
  split at hm
  · rename_i reset hann
    split at hm
    · rcases List.mem_append.mp hm with hm | hm
      · exact Or.inl hm
      · obtain rfl := List.mem_singleton.mp hm
        exact Or.inr ⟨rfl, hann, ‹_›⟩
    · exact Or.inl hm
  · exact Or.inl hm

theorem worker_asleep {p q : Announcing J} (hs : Asleep J p) (hwall : 0 ≤ p.1.ctx.wall)
    {i : Fin J.concurrency} {input : WorkerInput R}
    (h : pauseStep J p (.worker i input) = some q) : Asleep J q := by
  obtain ⟨ctx', ws', hstep, hq, hresets⟩ := pauseStep_worker h
  obtain ⟨e, -, hdoes⟩ := workerStep_turn hstep
  intro m hm hahead
  rw [hq] at hahead ⊢
  replace hahead : Ahead m.2 p.1.ctx.wall := by
    rw [← hdoes.wall]
    exact hahead
  rcases hresets m hm with hold | ⟨rfl, hann, -⟩
  · have hsleeps := hs m hold hahead
    by_cases hi : m.1 = i
    · rw [hi] at hsleeps
      exact absurd hahead (sleeps_wakes hsleeps hstep)
    · show Sleeps ctx' (Function.update p.1.workers i ws' m.1) m.2
      rw [Function.update_of_ne hi]
      exact hsleeps.congr hdoes.now hdoes.wall
  · show Sleeps ctx' (Function.update p.1.workers m.1 ws' m.1) m.2
    rw [Function.update_self]
    exact workerStep_sleeps hstep hann hwall hahead

/-- What else happens leaves the workers, and the clocks but for a tick, alone. -/
theorem step_still {s t : State J.concurrency} {a : Action R J.concurrency}
    (h : step J s a = some t) (hworker : ∀ i input, a ≠ .worker i input) :
    t.workers = s.workers ∧ t.ctx.calls = s.ctx.calls ∧
      ((∀ dt wall, a ≠ .tick dt wall) → t.ctx.now = s.ctx.now ∧ t.ctx.wall = s.ctx.wall) := by
  cases step_turn h with
  | tick _ => exact ⟨rfl, rfl, fun htick => absurd rfl (htick _ _)⟩
  | worker _ _ => exact absurd rfl (hworker _ _)
  | _ => exact ⟨rfl, rfl, fun _ => ⟨rfl, rfl⟩⟩

theorem pauseStep_still {p q : Announcing J} {a : Action R J.concurrency}
    (h : pauseStep J p a = some q) (hworker : ∀ i input, a ≠ .worker i input) : q.2 = p.2 := by
  rw [(Runs.withHistory_some.mp h).2]
  split
  · exact absurd rfl (hworker _ _)
  · rfl

theorem step_asleep {p q : Announcing J} {a : Action R J.concurrency} (hs : Asleep J p)
    (htime : KeepsTime J p a) (h : pauseStep J p a = some q) : Asleep J q := by
  have hstep := (Runs.withHistory_some.mp h).1
  cases a with
  | worker i input => exact worker_asleep hs htime.1 h
  | tick dt wall =>
    have hresets := pauseStep_still h fun i input hi => by cases hi
    have hwall := htime.2 dt wall rfl
    intro m hm hahead
    rw [hresets] at hm
    generalize q.1 = t at hstep hahead ⊢
    cases step_turn hstep with
    | tick hdt =>
      have hearlier : p.1.ctx.wall ≤ wall := le_trans (le_add_of_nonneg_right hdt) hwall
      exact (hs m hm (hahead.mono hearlier)).tick hwall
  | _ =>
    have hresets := pauseStep_still h fun i input hi => by cases hi
    obtain ⟨hworkers, -, hclocks⟩ := step_still hstep fun i input hi => by cases hi
    obtain ⟨hnow, hwall⟩ := hclocks fun dt wall hi => by cases hi
    intro m hm hahead
    rw [hresets] at hm
    rw [hwall] at hahead
    rw [hworkers]
    exact (hs m hm hahead).congr hnow hwall

/-- The sleepers start no call, so the pause is broken by the other workers only. -/
theorem hardPaused_iff {p : Announcing J} (hs : Asleep J p) (a : Action R J.concurrency) :
    HardPaused J p a ↔ OwnResetsOnly J p a := by
  refine forall₂_congr fun q hq => ?_
  cases a with
  | worker i input =>
    obtain ⟨ctx', ws', hstep, hnext, -⟩ := pauseStep_worker hq
    have hcalls : q.1.ctx.calls ≠ p.1.ctx.calls ↔ Dispatches p.1.ctx (p.1.workers i) := by
      rw [hnext]
      exact workerStep_calls hstep
    rw [hcalls]
    constructor
    · rintro hpaused j input' haction hdispatches m hm hahead
      obtain ⟨rfl, rfl⟩ := Action.worker.inj haction
      exact absurd hahead (hpaused hdispatches m hm)
    · intro hown hdispatches m hm hahead
      have hself : m.1 = i := hown i input rfl hdispatches m hm hahead
      have hsleeps := hs m hm hahead
      rw [hself] at hsleeps
      exact sleeps_wakes hsleeps hstep hahead
  | _ =>
    have hcalls := (step_still (Runs.withHistory_some.mp hq).1 fun i input hi => by cases hi).2.1
    refine iff_of_true (fun hne => absurd hcalls hne) fun i input hi => ?_
    cases hi

/-- Only a tick moves the wall clock. -/
theorem pauseStep_wall {p q : Announcing J} {a : Action R J.concurrency}
    (h : pauseStep J p a = some q) (htick : ∀ dt wall, a ≠ .tick dt wall) :
    q.1.ctx.wall = p.1.ctx.wall := by
  cases a with
  | worker i input =>
    obtain ⟨ctx', ws', hstep, hnext, -⟩ := pauseStep_worker h
    obtain ⟨e, -, hdoes⟩ := workerStep_turn hstep
    rw [hnext]
    exact hdoes.wall
  | _ =>
    have hstep := (Runs.withHistory_some.mp h).1
    exact ((step_still hstep fun i input hi => by cases hi).2.2 htick).2

/-- From this reading on, the wall clock goes no slower than the monotonic one. -/
def KeepTime {n : ℕ} : ℚ → List (Action R n) → Prop
  | _, [] => True
  | wall, .tick dt wall' :: actions => wall + dt ≤ wall' ∧ KeepTime wall' actions
  | wall, _ :: actions => KeepTime wall actions

theorem along_keepsTime {actions : List (Action R J.concurrency)} :
    ∀ {p : Announcing J}, 0 ≤ p.1.ctx.wall →
      KeepTime p.1.ctx.wall actions → Runs.Along (pauseStep J) (KeepsTime J) p actions := by
  induction actions with
  | nil => exact fun _ _ => trivial
  | cons a actions ih =>
    intro p hwall hclock
    cases a with
    | tick dt wall =>
      refine ⟨⟨hwall, fun dt' wall' htick => ?_⟩, fun q hq => ?_⟩
      · obtain ⟨rfl, rfl⟩ := Action.tick.inj htick
        exact hclock.1
      · have hstep := (Runs.withHistory_some.mp hq).1
        have hreading : 0 ≤ dt ∧ q.1.ctx.wall = wall := by
          generalize q.1 = t at hstep ⊢
          cases step_turn hstep with
          | tick hdt => exact ⟨hdt, rfl⟩
        have hlater := hclock.1
        apply ih
        · rw [hreading.2]
          linarith [hreading.1]
        · rw [hreading.2]
          exact hclock.2
    | _ =>
      refine ⟨⟨hwall, fun dt wall htick => by cases htick⟩, fun q hq => ?_⟩
      have hreading := pauseStep_wall hq fun dt wall htick => by cases htick
      apply ih
      · rw [hreading]
        exact hwall
      · rw [hreading]
        exact hclock

/-- In a run whose wall clock keeps time, no call is started while an announced reset is ahead
exactly if no worker gets a token while a reset that another one has been told is ahead. With
one worker none ever is. -/
theorem hard_pause_iff (J : JobRunner R) (now wall : ℚ) (actions : List (Action R J.concurrency))
    (hwall : 0 ≤ wall) (hclock : KeepTime wall actions) :
    (Runs.Along (pauseStep J) (HardPaused J) (J.start now wall, []) actions ↔
      Runs.Along (pauseStep J) (OwnResetsOnly J) (J.start now wall, []) actions) ∧
    (J.concurrency = 1 →
      Runs.Along (pauseStep J) (HardPaused J) (J.start now wall, []) actions) := by
  have htime := along_keepsTime (J := J) (p := (J.start now wall, [])) hwall hclock
  have hstart : Asleep J (J.start now wall, []) := fun m hm => absurd hm List.not_mem_nil
  have hiff : Runs.Along (pauseStep J) (HardPaused J) (J.start now wall, []) actions ↔
      Runs.Along (pauseStep J) (OwnResetsOnly J) (J.start now wall, []) actions := by
    constructor
    · intro hpaused
      exact Runs.Along.of_invariant (fun _ _ _ hs hboth ht => step_asleep hs hboth.1 ht)
        (fun _ a hs hboth => (hardPaused_iff hs a).mp hboth.2) hstart
        (Runs.along_and.mpr ⟨htime, hpaused⟩)
    · intro hown
      exact Runs.Along.of_invariant (fun _ _ _ hs hboth ht => step_asleep hs hboth.1 ht)
        (fun _ a hs hboth => (hardPaused_iff hs a).mpr hboth.2) hstart
        (Runs.along_and.mpr ⟨htime, hown⟩)
  refine ⟨hiff, fun hone => hiff.mpr ?_⟩
  have hsame : ∀ i j : Fin J.concurrency, i = j := by
    intro i j
    omega
  refine Runs.Along.of_invariant (I := fun _ => True) (fun _ _ _ _ _ _ => trivial) ?_ trivial htime
  intro p a _ _ q _ i input _ _ m _ _
  exact hsame m.1 i

end Job

/-- A 429 whose quota is refilled at 100. -/
def refilledAt100 : CallResult :=
  .returned { statusCode := 429, headers := [("x-ratelimit-reset-requests", "100")] }

/-- The first of the prompts of `threePrompts` is answered by it. -/
def throttledRun : List (Action CallResult threePrompts.concurrency) :=
  List.replicate 7 (.runner false) ++ [.nth 0 .take, .nth 0 (.reply refilledAt100 0 false)]

def firstThrottled : Announcing threePrompts :=
  (Runs.exec (pauseStep threePrompts) (threePrompts.start 0 0, []) throttledRun).get
    (by decide +kernel)

/-- Then the second worker takes a prompt and sends it. -/
theorem others_go_on : ∃ (J : JobRunner CallResult)
    (actions : List (Action CallResult J.concurrency)), KeepTime 0 actions ∧
      ¬ Runs.Along (pauseStep J) (HardPaused J) (J.start 0 0, []) actions := by
  have hclock : KeepTime 0 (throttledRun ++ [.nth 1 .take]) := trivial
  refine ⟨threePrompts, throttledRun ++ [.nth 1 .take], hclock, fun hpaused => ?_⟩
  have hrun : Runs.exec (pauseStep threePrompts) (threePrompts.start 0 0, []) throttledRun =
      some firstThrottled := (Option.some_get _).symm
  have hlast : HardPaused threePrompts firstThrottled (.nth 1 .take) := hpaused.apply hrun
  have hcalls : (pauseStep threePrompts firstThrottled (.nth 1 .take)).map
      (fun q => q.1.ctx.calls.length) = some 2 := by decide +kernel
  obtain ⟨q, hq, htwo⟩ := Option.map_eq_some_iff.mp hcalls
  have hone : firstThrottled.1.ctx.calls.length = 1 := by decide +kernel
  have hannounced : (⟨0, by decide⟩, .fin 100) ∈ firstThrottled.2 := by decide +kernel
  have hahead : Ahead (.fin 100) firstThrottled.1.ctx.wall := by decide +kernel
  refine hlast q hq (fun hsame => ?_) _ hannounced hahead
  rw [hsame, hone] at htwo
  exact absurd htwo (by decide)

/-- A prompt for one worker. -/
def lonePrompt : JobRunner CallResult where
  provider := scripted (1 / 5) (1 / 5)
  config := { concurrency := some 1 }
  input := { entries := [.item ⟨"a", "hello"⟩] }

/-- It is throttled, and sent again after the reset. -/
def lonePromptRun : List (Action CallResult lonePrompt.concurrency) :=
  List.replicate 3 (.runner false) ++
  [.nth 0 .take, .nth 0 (.reply refilledAt100 0 false), .tick 100 100, .nth 0 (.wake 0),
    .nth 0 (.wake 0), .nth 0 (.wake 0)]

theorem hard_pause_iff_lonePrompt :
    (Runs.exec (step lonePrompt) (lonePrompt.start 0 0) lonePromptRun).map
      (fun s => s.ctx.calls.length) = some 2 ∧
    Runs.Along (pauseStep lonePrompt) (HardPaused lonePrompt) (lonePrompt.start 0 0, [])
      lonePromptRun := by
  have hclock : KeepTime 0 lonePromptRun := by
    simp [lonePromptRun, List.replicate, KeepTime, Action.nth]
  exact ⟨by decide +kernel, (hard_pause_iff lonePrompt 0 0 lonePromptRun le_rfl hclock).2 rfl⟩

end BatchEngine.Core
