import BatchEngine.Api.Submit
import BatchEngine.Api.Visible
import BatchEngine.Core.Snapshots
import BatchEngine.Lib.Fleet

/-!
# The application

One process hosts many jobs: `AppState.runners` holds those it has started, the store the
last saved record of every job. The jobs share the clock and nothing else, the requests
find a job by its id, and a restart forgets the runners and keeps the store. A submission
has its row in the store before it has a runner and an answer.
-/

set_option autoImplicit false

namespace BatchEngine.Api

open BatchEngine.Core BatchEngine.Providers

/-! ## One job among others -/

/-- A task of a job goes from one await point to its next. -/
inductive TaskTurn (R : Type*) where
  | run (raises : Bool)
  | worker (i : ℕ) (input : WorkerInput R)
  | writer
  | writerTimeout

/-- What a job hears from the process that hosts it. -/
inductive Signal (R : Type*) where
  | tick (dt wall : ℚ)
  | cancel
  | turn (t : TaskTurn R)

/-- The signal as an action of a job of `n` workers. -/
def Signal.action {R : Type*} (n : ℕ) : Signal R → Option (Action R n)
  | .tick dt wall => some (.tick dt wall)
  | .cancel => some .cancel
  | .turn (.run raises) => some (.runner raises)
  | .turn (.worker i input) => if h : i < n then some (.worker ⟨i, h⟩ input) else none
  | .turn .writer => some .writer
  | .turn .writerTimeout => some .writerTimeout

/-- Whether the signal is a spend check raising. -/
def Signal.raisesInCheck {R : Type*} : Signal R → Bool
  | .turn (.worker _ (.reply _ _ raises)) => raises
  | _ => false

/-- An entry of `state.runners`. -/
structure Runner (R : Type*) where
  job : JobRunner R
  state : State job.concurrency

variable {R : Type*}

def Runner.step (r : Runner R) (signal : Signal R) : Option (Runner R) :=
  (signal.action r.job.concurrency).bind fun a =>
    (Core.step r.job r.state a).map fun s => { r with state := s }

/-- `runner.cancel()`. -/
def Runner.cancel (r : Runner R) : Runner R :=
  { r with state := { r.state with ctx.cancelEvent := true } }

/-! ## The process -/

/-- `jobStore` is the table of the last saved records, `pending` the ids whose `submit_job`
has created its row and has yet to start the job. -/
structure AppState (R : Type*) where
  now : ℚ
  wall : ℚ
  jobStore : List (String × JobRecord) := []
  runners : List (String × Runner R) := []
  pending : List String := []

structure HttpException where
  statusCode : ℕ
  detail : String
  deriving DecidableEq, Repr

def unknownJob (jobId : String) : HttpException := ⟨404, "unknown job_id: " ++ jobId⟩

def inactiveJob : HttpException :=
  ⟨409, "job is not active in this process (already finished or process restarted)"⟩

namespace AppState

/-- `_get_record`. -/
def getRecord (app : AppState R) (jobId : String) : Except HttpException JobRecord :=
  match Dict.get? app.runners jobId with
  | some runner => .ok runner.state.ctx.record
  | none =>
    match Dict.get? app.jobStore jobId with
    | none => .error (unknownJob jobId)
    | some record => .ok record

/-- The process with this runner in the place of the job's old one. What the runner has
saved is in the store. -/
def put (app : AppState R) (jobId : String) (runner : Runner R) : AppState R :=
  { app with
    jobStore :=
      match runner.state.store with
      | none => app.jobStore
      | some record => Dict.set app.jobStore jobId record
    runners := Dict.set app.runners jobId runner }

/-- `cancel_job`, with the process as it leaves it. -/
def cancelJob (app : AppState R) (jobId : String) : Except HttpException (AppState R) :=
  match Dict.get? app.runners jobId with
  | none =>
    match Dict.get? app.jobStore jobId with
    | none => .error (unknownJob jobId)
    | some _ => .error inactiveJob
  | some runner => .ok { app with runners := Dict.set app.runners jobId runner.cancel }

/-- `download_job`; `file` is what is at the result path. -/
def download (app : AppState R) (host : Py.Host) (jobId : String) (isPartial : Bool)
    (format : Format) (incl : Include) (file : Option (List UInt8)) :
    Except HttpException DownloadAnswer :=
  (app.getRecord jobId).map fun record =>
    downloadJob host record.status isPartial format incl file

/-- `store.create`, for a request that is not refused. -/
def create (app : AppState R) (jobId : String) : AppState R :=
  { app with
    jobStore := Dict.set app.jobStore jobId {}
    pending := jobId :: app.pending }

/-- The `submit_job` of this id is over. -/
def conclude (app : AppState R) (jobId : String) : AppState R :=
  { app with pending := app.pending.filter (· ≠ jobId) }

/-- The end of `submit_job`, from the provider to the answer. -/
def launch (app : AppState R) (jobId : String) (job : JobRunner R) : AppState R :=
  { app.conclude jobId with
    runners := Dict.set app.runners jobId ⟨job, job.start app.now app.wall⟩ }

end AppState

/-- A submission that is not refused is a `create` and then a `submit`, its answer, or a
`fail`: the provider could not be made, and the answer is 500. -/
inductive AppAction (R : Type*) where
  | create (jobId : String)
  | submit (answer : SubmitAnswer) (jobId : String) (job : JobRunner R)
  | fail (jobId : String)
  | cancel (jobId : String)
  | turn (jobId : String) (t : TaskTurn R)
  | tick (dt wall : ℚ)
  | restart (now wall : ℚ)

/-- `ULID()` gives no id twice. -/
def AppState.step (app : AppState R) : AppAction R → Option (AppState R)
  | .create jobId =>
    if Dict.get? app.jobStore jobId = none then some (app.create jobId) else none
  | .submit answer jobId job =>
    if answer ≠ .accepted then some app
    else if jobId ∈ app.pending then some (app.launch jobId job)
    else none
  | .fail jobId => if jobId ∈ app.pending then some (app.conclude jobId) else none
  | .cancel jobId =>
    match app.cancelJob jobId with
    | .ok app' => some app'
    | .error _ => some app
  | .turn jobId t =>
    (Dict.get? app.runners jobId).bind fun runner =>
      (runner.step (.turn t)).map fun runner' => app.put jobId runner'
  | .tick dt wall =>
    if 0 ≤ dt then
      (Fleet.broadcast Runner.step (.tick dt wall) app.runners).map fun runners =>
        { app with now := app.now + dt, wall, runners }
    else none
  | .restart now wall => some { app with now, wall, runners := [], pending := [] }

/-- The signals that the job under this id hears. -/
def AppAction.heard (jobId : String) : AppAction R → List (Signal R)
  | .create _ | .submit _ _ _ | .fail _ => []
  | .cancel jobId' => if jobId' = jobId then [.cancel] else []
  | .turn jobId' t => if jobId' = jobId then [.turn t] else []
  | .tick dt wall => [.tick dt wall]
  | .restart _ _ => []

def AppAction.isRestart : AppAction R → Bool
  | .restart _ _ => true
  | _ => false

/-- The ids whose row a submission has created. -/
def AppAction.created : AppAction R → List String
  | .create jobId => [jobId]
  | _ => []

/-- The ids that submissions were answered with. -/
def AppAction.submitted : AppAction R → List String
  | .submit answer jobId _ => if answer = .accepted then [jobId] else []
  | _ => []

/-! ## What a step can do -/

inductive AppTurn (app : AppState R) : AppAction R → AppState R → Prop
  | created {jobId : String} (hnew : Dict.get? app.jobStore jobId = none) :
      AppTurn app (.create jobId) (app.create jobId)
  | refused {answer : SubmitAnswer} {jobId : String} {job : JobRunner R}
      (hanswer : answer ≠ .accepted) : AppTurn app (.submit answer jobId job) app
  | launched {jobId : String} {job : JobRunner R} (hpending : jobId ∈ app.pending) :
      AppTurn app (.submit .accepted jobId job) (app.launch jobId job)
  | failed {jobId : String} (hpending : jobId ∈ app.pending) :
      AppTurn app (.fail jobId) (app.conclude jobId)
  | cancelled {jobId : String} {r : Runner R} (hr : Dict.get? app.runners jobId = some r) :
      AppTurn app (.cancel jobId) { app with runners := Dict.set app.runners jobId r.cancel }
  | inactive {jobId : String} (hnone : Dict.get? app.runners jobId = none) :
      AppTurn app (.cancel jobId) app
  | moved {jobId : String} {t : TaskTurn R} {r r' : Runner R}
      (hr : Dict.get? app.runners jobId = some r) (hmove : r.step (.turn t) = some r') :
      AppTurn app (.turn jobId t) (app.put jobId r')
  | ticked {dt wall : ℚ} {runners : List (String × Runner R)} (hdt : 0 ≤ dt)
      (hall : Fleet.broadcast Runner.step (.tick dt wall) app.runners = some runners) :
      AppTurn app (.tick dt wall) { app with now := app.now + dt, wall, runners }
  | restarted {now wall : ℚ} :
      AppTurn app (.restart now wall) { app with now, wall, runners := [], pending := [] }

theorem app_turn {app app' : AppState R} {a : AppAction R} (h : app.step a = some app') :
    AppTurn app a app' := by
  cases a with
  | create jobId =>
    rw [AppState.step] at h
    split at h
    · obtain rfl := Option.some.inj h
      exact .created ‹_›
    · cases h
  | fail jobId =>
    rw [AppState.step] at h
    split at h
    · obtain rfl := Option.some.inj h
      exact .failed ‹_›
    · cases h
  | submit answer jobId job =>
    rw [AppState.step] at h
    split at h
    · obtain rfl := Option.some.inj h
      exact .refused ‹_›
    · split at h
      · obtain rfl := Option.some.inj h
        obtain rfl : answer = .accepted := not_not.mp ‹_›
        exact .launched ‹_›
      · cases h
  | cancel jobId =>
    rw [AppState.step, AppState.cancelJob] at h
    cases hr : Dict.get? app.runners jobId with
    | some r =>
      rw [hr] at h
      obtain rfl := Option.some.inj h
      exact .cancelled hr
    | none =>
      rw [hr] at h
      cases hstored : Dict.get? app.jobStore jobId with
      | none =>
        rw [hstored] at h
        obtain rfl := Option.some.inj h
        exact .inactive hr
      | some record =>
        rw [hstored] at h
        obtain rfl := Option.some.inj h
        exact .inactive hr
  | turn jobId t =>
    obtain ⟨r, hr, h⟩ := Option.bind_eq_some_iff.mp h
    obtain ⟨r', hmove, rfl⟩ := Option.map_eq_some_iff.mp h
    exact .moved hr hmove
  | tick dt wall =>
    rw [AppState.step] at h
    split at h
    · obtain ⟨runners, hall, rfl⟩ := Option.map_eq_some_iff.mp h
      exact .ticked ‹_› hall
    · cases h
  | restart now wall =>
    obtain rfl := Option.some.inj h
    exact .restarted

theorem raisesInCheck_action {n : ℕ} {signal : Signal R} {a : Action R n}
    (h : signal.action n = some a) : a.raisesInCheck = signal.raisesInCheck := by
  cases signal with
  | tick dt wall =>
    obtain rfl := Option.some.inj h
    rfl
  | cancel =>
    obtain rfl := Option.some.inj h
    rfl
  | turn t =>
    cases t with
    | worker i input =>
      rw [Signal.action] at h
      split at h
      · obtain rfl := Option.some.inj h
        cases input <;> rfl
      · cases h
    | _ =>
      obtain rfl := Option.some.inj h
      rfl

theorem runner_step {r r' : Runner R} {signal : Signal R} (h : r.step signal = some r') :
    ∃ a s', signal.action r.job.concurrency = some a ∧ Core.step r.job r.state a = some s' ∧
      r' = ⟨r.job, s'⟩ := by
  obtain ⟨a, ha, h⟩ := Option.bind_eq_some_iff.mp h
  obtain ⟨s', hs', rfl⟩ := Option.map_eq_some_iff.mp h
  exact ⟨a, s', ha, hs', rfl⟩

/-- A runner's run over signals is a run of its job. -/
theorem runner_exec {signals : List (Signal R)} : ∀ {r r' : Runner R},
    Runs.exec Runner.step r signals = some r' → ∃ actions s',
      signals.mapM (Signal.action r.job.concurrency) = some actions ∧
      Runs.exec (Core.step r.job) r.state actions = some s' ∧ r' = ⟨r.job, s'⟩ := by
  induction signals with
  | nil =>
    intro r r' h
    obtain rfl := Option.some.inj h
    exact ⟨[], r.state, rfl, rfl, rfl⟩
  | cons signal signals ih =>
    intro r r' h
    obtain ⟨r₁, hfirst, hrest⟩ := Runs.exec_cons_iff.mp h
    obtain ⟨a, s₁, ha, hs₁, rfl⟩ := runner_step hfirst
    obtain ⟨actions, s', hactions, hs', rfl⟩ := ih hrest
    refine ⟨a :: actions, s', ?_, Runs.exec_cons_iff.mpr ⟨s₁, hs₁, hs'⟩, rfl⟩
    rw [List.mapM_cons, ha]
    show (signals.mapM (Signal.action r.job.concurrency)).bind _ = _
    rw [hactions]
    rfl

theorem quiet_actions {n : ℕ} {signals : List (Signal R)} : ∀ {actions : List (Action R n)},
    signals.mapM (Signal.action n) = some actions →
      (∀ signal ∈ signals, signal.raisesInCheck = false) →
      ∀ a ∈ actions, a.raisesInCheck = false := by
  induction signals with
  | nil =>
    intro actions h _
    obtain rfl := Option.some.inj h
    exact List.forall_mem_nil _
  | cons signal signals ih =>
    intro actions h hquiet
    rw [List.mapM_cons] at h
    obtain ⟨a, ha, h⟩ := Option.bind_eq_some_iff.mp h
    obtain ⟨rest, hrest, h⟩ := Option.bind_eq_some_iff.mp h
    obtain rfl := Option.some.inj h
    obtain ⟨hsignal, hsignals⟩ := List.forall_mem_cons.mp hquiet
    exact List.forall_mem_cons.mpr
      ⟨(raisesInCheck_action ha).trans hsignal, ih hrest hsignals⟩

/-! ## What the process keeps -/

/-- Each runner is in a state of its own job, at the time of the process, and the store has
what it saved last. -/
structure Hosted (app : AppState R) (jobId : String) (r : Runner R) : Prop where
  reachable : Reachable r.job r.state
  stored : Dict.get? app.jobStore jobId = some (r.state.store.getD {})
  now : r.state.ctx.now = app.now
  wall : r.state.ctx.wall = app.wall

structure Sound (app : AppState R) : Prop where
  hosted : ∀ jobId r, Dict.get? app.runners jobId = some r → Hosted app jobId r
  pending : ∀ jobId ∈ app.pending,
    Dict.get? app.jobStore jobId = some {} ∧ Dict.get? app.runners jobId = none

theorem Sound.not_pending {app : AppState R} (hs : Sound app) {jobId : String} {r : Runner R}
    (hr : Dict.get? app.runners jobId = some r) : jobId ∉ app.pending := by
  intro hpending
  cases (hs.pending jobId hpending).2.symm.trans hr

theorem turn_keeps_time {r r' : Runner R} {t : TaskTurn R} (h : r.step (.turn t) = some r') :
    r'.state.ctx.now = r.state.ctx.now ∧ r'.state.ctx.wall = r.state.ctx.wall := by
  obtain ⟨a, s', ha, hs', rfl⟩ := runner_step h
  cases step_turn hs' with
  | tick hdt =>
    exfalso
    cases t with
    | worker i input =>
      rw [Signal.action] at ha
      split at ha <;> cases ha
    | _ => cases ha
  | worker hturn hdoes => exact ⟨hdoes.now, hdoes.wall⟩
  | _ => exact ⟨rfl, rfl⟩

theorem hosted_launch {app : AppState R} {jobId : String}
    (hrow : Dict.get? app.jobStore jobId = some {}) (job : JobRunner R) :
    Hosted (app.launch jobId job) jobId ⟨job, job.start app.now app.wall⟩ where
  reachable := reachable_start job app.now app.wall
  stored := hrow
  now := rfl
  wall := rfl

theorem hosted_cancel {app : AppState R} {jobId : String} {r : Runner R} (h : Hosted app jobId r)
    (runners : List (String × Runner R)) : Hosted { app with runners } jobId r.cancel where
  reachable := h.reachable.step (a := .cancel) rfl
  stored := h.stored
  now := h.now
  wall := h.wall

/-- A save puts the live record into the store; without a save the row stays. -/
theorem hosted_put {app : AppState R} {jobId : String} {t : TaskTurn R} {r r' : Runner R}
    (h : Hosted app jobId r) (hmove : r.step (.turn t) = some r') :
    Hosted (app.put jobId r') jobId r' := by
  obtain ⟨hnow, hwall⟩ := turn_keeps_time hmove
  obtain ⟨a, s', -, hs', rfl⟩ := runner_step hmove
  refine ⟨h.reachable.step hs', ?_, hnow.trans h.now, hwall.trans h.wall⟩
  unfold AppState.put
  cases hstore : s'.store with
  | none =>
    rcases step_store (step_turn hs') with hsame | hsaved
    · have hrow := h.stored
      rw [← hsame, hstore] at hrow
      exact hrow
    · cases hstore.symm.trans hsaved
  | some record =>
    show Dict.get? (Dict.set app.jobStore jobId record) jobId = some record
    rw [Dict.get?_set, if_pos rfl]

theorem hosted_tick {app : AppState R} {jobId : String} {r r' : Runner R} {dt wall : ℚ}
    (h : Hosted app jobId r) (hmove : r.step (.tick dt wall) = some r')
    (runners : List (String × Runner R)) :
    Hosted { app with now := app.now + dt, wall, runners } jobId r' := by
  obtain ⟨a, s', ha, hs', rfl⟩ := runner_step hmove
  obtain rfl := Option.some.inj ha
  have hreach := h.reachable.step hs'
  cases step_turn hs' with
  | tick hdt => exact ⟨hreach, h.stored, congrArg (· + dt) h.now, rfl⟩

/-- What one job does leaves the row of another as it is. -/
theorem Hosted.frame {app app' : AppState R} {jobId : String} {r : Runner R}
    (h : Hosted app jobId r)
    (hrow : Dict.get? app'.jobStore jobId = Dict.get? app.jobStore jobId)
    (hnow : app'.now = app.now) (hwall : app'.wall = app.wall) : Hosted app' jobId r :=
  ⟨h.reachable, hrow.trans h.stored, h.now.trans hnow.symm, h.wall.trans hwall.symm⟩

theorem get?_put_of_ne {app : AppState R} {jobId jobId' : String} (hne : jobId ≠ jobId')
    (r : Runner R) :
    Dict.get? (app.put jobId r).jobStore jobId' = Dict.get? app.jobStore jobId' := by
  unfold AppState.put
  cases r.state.store with
  | none => rfl
  | some record =>
    show Dict.get? (Dict.set app.jobStore jobId record) jobId' = _
    rw [Dict.get?_set, if_neg hne]

/-- One step of the process, as the job under `jobId` sees it. -/
inductive Seen (app app' : AppState R) (jobId : String) (a : AppAction R) : Prop
  | moved {r r' : Runner R} (hr : Dict.get? app.runners jobId = some r)
      (hr' : Dict.get? app'.runners jobId = some r')
      (hmove : Runs.exec Runner.step r (a.heard jobId) = some r') (hosted : Hosted app' jobId r')
      (hpending : jobId ∉ app'.pending)
  | created (hnew : Dict.get? app.jobStore jobId = none)
      (hr' : Dict.get? app'.runners jobId = none)
      (hrow : Dict.get? app'.jobStore jobId = some {}) (ha : a = .create jobId)
  | born {job : JobRunner R} (hpending : jobId ∈ app.pending) (hpending' : jobId ∉ app'.pending)
      (hr' : Dict.get? app'.runners jobId = some ⟨job, job.start app.now app.wall⟩)
      (hosted : Hosted app' jobId ⟨job, job.start app.now app.wall⟩)
      (ha : a = .submit .accepted jobId job)
  | absent (hr : Dict.get? app.runners jobId = none) (hr' : Dict.get? app'.runners jobId = none)
      (hrow : Dict.get? app'.jobStore jobId = Dict.get? app.jobStore jobId)
      (hpending : jobId ∈ app'.pending → jobId ∈ app.pending)
      (hcreated : jobId ∉ a.created) (hsubmitted : jobId ∉ a.submitted)
  | forgotten (ha : a.isRestart = true) (hr' : Dict.get? app'.runners jobId = none)
      (hrow : Dict.get? app'.jobStore jobId = Dict.get? app.jobStore jobId)
      (hpending : jobId ∉ app'.pending)
      (hcreated : jobId ∉ a.created) (hsubmitted : jobId ∉ a.submitted)

/-- A step that leaves the runner and the row of the job alone. -/
theorem seen_frame {app app' : AppState R} {jobId : String} {a : AppAction R} (hs : Sound app)
    (hheard : a.heard jobId = []) (hcreated : jobId ∉ a.created) (hsubmitted : jobId ∉ a.submitted)
    (hrunner : Dict.get? app'.runners jobId = Dict.get? app.runners jobId)
    (hrow : Dict.get? app'.jobStore jobId = Dict.get? app.jobStore jobId)
    (hpending : jobId ∈ app'.pending → jobId ∈ app.pending)
    (hnow : app'.now = app.now) (hwall : app'.wall = app.wall) : Seen app app' jobId a := by
  cases hr : Dict.get? app.runners jobId with
  | none => exact .absent hr (hrunner.trans hr) hrow hpending hcreated hsubmitted
  | some r =>
    refine .moved hr (hrunner.trans hr) ?_ ((hs.hosted jobId r hr).frame hrow hnow hwall)
      fun hmem => hs.not_pending hr (hpending hmem)
    rw [hheard]
    rfl

theorem mem_conclude {app : AppState R} {jobId jobId' : String}
    (h : jobId' ∈ (app.conclude jobId).pending) : jobId' ∈ app.pending ∧ jobId' ≠ jobId := by
  simpa [AppState.conclude] using h

theorem step_seen {app app' : AppState R} {a : AppAction R} (hs : Sound app)
    (h : app.step a = some app') (jobId : String) : Seen app app' jobId a := by
  cases app_turn h with
  | @created jobId' hnew =>
    by_cases hid : jobId' = jobId
    · subst hid
      refine .created hnew ?_ ?_ rfl
      · cases hr : Dict.get? app.runners jobId' with
        | none => exact hr
        | some r => cases hnew.symm.trans (hs.hosted jobId' r hr).stored
      · show Dict.get? (Dict.set app.jobStore jobId' _) jobId' = _
        rw [Dict.get?_set, if_pos rfl]
    · have hother : jobId ∉ [jobId'] := fun hmem => hid (List.mem_singleton.mp hmem).symm
      refine seen_frame hs rfl hother List.not_mem_nil rfl ?_ (fun hmem => ?_) rfl rfl
      · show Dict.get? (Dict.set app.jobStore jobId' _) jobId = _
        rw [Dict.get?_set, if_neg hid]
      · rcases List.mem_cons.mp hmem with hmem | hmem
        · exact absurd hmem.symm hid
        · exact hmem
  | refused hanswer =>
    refine seen_frame hs rfl List.not_mem_nil ?_ rfl rfl id rfl rfl
    rw [AppAction.submitted, if_neg hanswer]
    exact List.not_mem_nil
  | @launched jobId' job hpending =>
    by_cases hid : jobId' = jobId
    · subst hid
      refine .born hpending (fun hmem => (mem_conclude hmem).2 rfl) ?_
        (hosted_launch (hs.pending jobId' hpending).1 job) rfl
      show Dict.get? (Dict.set app.runners jobId' _) jobId' = _
      rw [Dict.get?_set, if_pos rfl]
    · refine seen_frame hs rfl List.not_mem_nil
        (fun hmem => hid (List.mem_singleton.mp hmem).symm) ?_ rfl
        (fun hmem => (mem_conclude hmem).1) rfl rfl
      show Dict.get? (Dict.set app.runners jobId' _) jobId = _
      rw [Dict.get?_set, if_neg hid]
  | failed hpending =>
    exact seen_frame hs rfl List.not_mem_nil List.not_mem_nil rfl rfl
      (fun hmem => (mem_conclude hmem).1) rfl rfl
  | @cancelled jobId' r hr =>
    by_cases hid : jobId' = jobId
    · subst hid
      have hmove : Runs.exec Runner.step r ((AppAction.cancel jobId').heard jobId') =
          some r.cancel := by
        rw [AppAction.heard, if_pos rfl]
        rfl
      refine .moved hr ?_ hmove (hosted_cancel (hs.hosted jobId' r hr) _) (hs.not_pending hr)
      show Dict.get? (Dict.set app.runners jobId' _) jobId' = _
      rw [Dict.get?_set, if_pos rfl]
    · refine seen_frame hs (if_neg hid) List.not_mem_nil List.not_mem_nil ?_ rfl id rfl rfl
      show Dict.get? (Dict.set app.runners jobId' _) jobId = _
      rw [Dict.get?_set, if_neg hid]
  | @inactive jobId' hnone =>
    by_cases hid : jobId' = jobId
    · subst hid
      exact .absent hnone hnone rfl id List.not_mem_nil List.not_mem_nil
    · exact seen_frame hs (if_neg hid) List.not_mem_nil List.not_mem_nil rfl rfl id rfl rfl
  | @moved jobId' t r r' hr hmove =>
    by_cases hid : jobId' = jobId
    · subst hid
      refine .moved hr ?_ ?_ (hosted_put (hs.hosted jobId' r hr) hmove) (hs.not_pending hr)
      · show Dict.get? (Dict.set app.runners jobId' _) jobId' = _
        rw [Dict.get?_set, if_pos rfl]
      · rw [AppAction.heard, if_pos rfl]
        exact Runs.exec_cons_iff.mpr ⟨r', hmove, rfl⟩
    · refine seen_frame hs (if_neg hid) List.not_mem_nil List.not_mem_nil ?_
        (get?_put_of_ne hid r') id rfl rfl
      show Dict.get? (Dict.set app.runners jobId' _) jobId = _
      rw [Dict.get?_set, if_neg hid]
  | @ticked dt wall runners hdt hall =>
    cases hr : Dict.get? app.runners jobId with
    | none =>
      refine .absent hr (Dict.get?_eq_none_iff.mpr ?_) rfl id List.not_mem_nil List.not_mem_nil
      show jobId ∉ runners.map Prod.fst
      rw [Fleet.keys_broadcast hall]
      exact Dict.get?_eq_none_iff.mp hr
    | some r =>
      obtain ⟨r', hmove, hr'⟩ := Fleet.get?_broadcast hall hr
      refine .moved hr hr' ?_ (hosted_tick (hs.hosted jobId r hr) hmove runners)
        (hs.not_pending hr)
      exact Runs.exec_cons_iff.mpr ⟨r', hmove, rfl⟩
  | restarted =>
    exact .forgotten rfl rfl rfl List.not_mem_nil List.not_mem_nil List.not_mem_nil

theorem step_sound {app app' : AppState R} {a : AppAction R} (hs : Sound app)
    (h : app.step a = some app') : Sound app' := by
  constructor
  · intro jobId r hr
    cases step_seen hs h jobId with
    | moved _ hr' _ hosted _ => exact Option.some.inj (hr'.symm.trans hr) ▸ hosted
    | created _ hr' _ _ => cases hr'.symm.trans hr
    | born _ _ hr' hosted _ => exact Option.some.inj (hr'.symm.trans hr) ▸ hosted
    | absent _ hr' _ _ _ _ => cases hr'.symm.trans hr
    | forgotten _ hr' _ _ _ _ => cases hr'.symm.trans hr
  · intro jobId hmem
    cases step_seen hs h jobId with
    | moved _ _ _ _ hpending => exact absurd hmem hpending
    | created _ hr' hrow _ => exact ⟨hrow, hr'⟩
    | born _ hpending' _ _ _ => exact absurd hmem hpending'
    | absent _ hr' hrow hpending _ _ =>
      exact ⟨hrow.trans (hs.pending jobId (hpending hmem)).1, hr'⟩
    | forgotten _ _ _ hpending _ _ => exact absurd hmem hpending

end BatchEngine.Api
