import BatchEngine.Api.Application

/-!
# What a client can rely on

A client polls its job by the id that the submission returned, over the life of the
process and over its restarts. Each job runs as if it were alone, its id is known for
good from the creation of its row, and a restart costs its record a bounded number of items
and its future.
-/

set_option autoImplicit false

namespace BatchEngine.Api

open BatchEngine.Core BatchEngine.Providers

variable {R : Type*}

/-- A process that starts on the store of earlier ones. -/
def AppState.boot (now wall : ℚ) (jobStore : List (String × JobRecord)) : AppState R :=
  { now, wall, jobStore }

theorem boot_sound (now wall : ℚ) (jobStore : List (String × JobRecord)) :
    Sound (AppState.boot now wall jobStore : AppState R) where
  hosted _ _ hr := by cases hr
  pending _ hmem := absurd hmem List.not_mem_nil

/-- What a service has come to, restarts included. -/
def Served (app : AppState R) : Prop :=
  ∃ now wall jobStore actions,
    Runs.exec AppState.step (AppState.boot now wall jobStore) actions = some app

theorem run_sound {app app' : AppState R} {actions : List (AppAction R)} (hs : Sound app)
    (hrun : Runs.exec AppState.step app actions = some app') : Sound app' :=
  Runs.exec_invariant' (fun _ _ _ hs h => step_sound hs h) hs hrun

theorem Served.sound {app : AppState R} (h : Served app) : Sound app := by
  obtain ⟨now, wall, jobStore, actions, hrun⟩ := h
  exact run_sound (boot_sound now wall jobStore) hrun

/-! ## Each job runs as if it were alone -/

/-- A job that is hosted was submitted since the last restart, and its state is that of a
run of its own from there, over exactly the signals addressed to it. -/
theorem hosted_run {now wall : ℚ} {jobStore : List (String × JobRecord)}
    {actions : List (AppAction R)} {app : AppState R} {jobId : String} {r : Runner R}
    (hrun : Runs.exec AppState.step (AppState.boot now wall jobStore) actions = some app)
    (hr : Dict.get? app.runners jobId = some r) :
    ∃ before job later born moves s, actions = before ++ .submit .accepted jobId job :: later ∧
      (∀ a ∈ later, a.isRestart = false) ∧
      Runs.exec AppState.step (AppState.boot now wall jobStore) before = some born ∧
      (later.flatMap (AppAction.heard jobId)).mapM (Signal.action job.concurrency) = some moves ∧
      Runs.exec (Core.step job) (job.start born.now born.wall) moves = some s ∧
      r = ⟨job, s⟩ := by
  have horigin := Fleet.exec_origin Runner.step
    (fun app : AppState R => Dict.get? app.runners jobId) (AppAction.heard jobId)
    (fun a => a.isRestart = false)
    (fun u a r => ∃ job, a = .submit .accepted jobId job ∧ r = ⟨job, job.start u.now u.wall⟩)
    (fun _ _ _ hs h => step_sound hs h) ?_ (boot_sound now wall jobStore) actions hrun hr
  · rcases horigin with ⟨_, hnone, _⟩ | ⟨before, a, later, u, _, hsplit, hall, hu, hborn, hmoves⟩
    · cases hnone
    · obtain ⟨job, rfl, rfl⟩ := hborn
      obtain ⟨moves, s, hmoves, hs, hr⟩ := runner_exec hmoves
      exact ⟨before, job, later, u, moves, s, hsplit, hall, hu, hmoves, hs, hr⟩
  · intro u a v r' hs hstep hr'
    cases step_seen hs hstep jobId with
    | @moved r₀ r₁ hr₀ hr₁ hmove _ _ =>
      obtain rfl := Option.some.inj (hr₁.symm.trans hr')
      refine Or.inl ⟨?_, r₀, hr₀, hmove⟩
      cases a with
      | restart now wall =>
        rw [(Option.some.inj hstep).symm] at hr'
        cases hr'
      | _ => rfl
    | @born job _ _ hr₁ _ ha =>
      exact Or.inr ⟨job, ha, (Option.some.inj (hr₁.symm.trans hr')).symm⟩
    | created _ hnone _ _ => cases hnone.symm.trans hr'
    | absent _ hnone _ _ _ _ => cases hnone.symm.trans hr'
    | forgotten _ hnone _ _ _ _ => cases hnone.symm.trans hr'

/-- Two jobs in one process; the first takes up its prompt, the second is cancelled. A third
has its row only. -/
def twoJobsRun : List (AppAction CallResult) :=
  [.create "01", .submit .accepted "01" twoRows] ++ List.replicate 3 (.turn "01" (.run false)) ++
  [.create "02", .tick 1 1, .submit .accepted "02" twoRows, .turn "02" (.run false),
    .turn "01" (.worker 0 .take), .cancel "02", .create "03"]

def twoJobs : AppState CallResult :=
  (Runs.exec AppState.step (AppState.boot 0 0 []) twoJobsRun).get (by decide +kernel)

theorem twoJobs_run : Runs.exec AppState.step (AppState.boot 0 0 []) twoJobsRun = some twoJobs :=
  (Option.some_get _).symm

def firstOfTwo : Runner CallResult := (Dict.get? twoJobs.runners "01").get (by decide +kernel)

theorem hosted_run_twoJobs :
    ∃ (job : JobRunner CallResult) (born : AppState CallResult)
      (moves : List (Action CallResult job.concurrency)) (s : State job.concurrency),
      Runs.exec (Core.step job) (job.start born.now born.wall) moves = some s ∧
        firstOfTwo = ⟨job, s⟩ := by
  obtain ⟨_, job, _, born, moves, s, -, -, -, -, hs, hr⟩ :=
    hosted_run twoJobs_run (show Dict.get? twoJobs.runners "01" = some firstOfTwo from
      (Option.some_get _).symm)
  exact ⟨job, born, moves, s, hs, hr⟩

/-! ## Which ids are known -/

theorem step_known {app app' : AppState R} {a : AppAction R} (hs : Sound app)
    (h : app.step a = some app') (jobId : String) :
    Dict.get? app'.jobStore jobId = none ↔
      Dict.get? app.jobStore jobId = none ∧ jobId ∉ a.created := by
  cases step_seen hs h jobId with
  | @moved r r' hr _ _ hosted _ =>
    have hbefore := (hs.hosted jobId r hr).stored
    have hafter := hosted.stored
    rw [hbefore, hafter]
    exact iff_of_false (Option.some_ne_none _) fun hnone => Option.some_ne_none _ hnone.1
  | created _ _ hrow ha =>
    rw [hrow, ha]
    exact iff_of_false (Option.some_ne_none _) fun hnone => hnone.2 (List.mem_singleton_self _)
  | born hpending _ _ hosted _ =>
    rw [hosted.stored, (hs.pending jobId hpending).1]
    exact iff_of_false (Option.some_ne_none _) fun hnone => Option.some_ne_none _ hnone.1
  | absent _ _ hrow _ hcreated _ =>
    rw [hrow]
    exact (and_iff_left hcreated).symm
  | forgotten _ _ hrow _ hcreated _ =>
    rw [hrow]
    exact (and_iff_left hcreated).symm

theorem run_known {actions : List (AppAction R)} (jobId : String) :
    ∀ {app app' : AppState R}, Sound app → Runs.exec AppState.step app actions = some app' →
      (Dict.get? app'.jobStore jobId = none ↔
        Dict.get? app.jobStore jobId = none ∧ jobId ∉ actions.flatMap AppAction.created) := by
  induction actions with
  | nil =>
    intro app app' _ h
    obtain rfl := Option.some.inj h
    exact (and_iff_left List.not_mem_nil).symm
  | cons a actions ih =>
    intro app app' hs h
    obtain ⟨mid, hmid, hrest⟩ := Runs.exec_cons_iff.mp h
    rw [ih (step_sound hs hmid) hrest, step_known hs hmid, List.flatMap_cons, List.mem_append,
      not_or, and_assoc]

/-- An id that a submission is answered with has its row. -/
theorem step_answered {app app' : AppState R} {a : AppAction R} (hs : Sound app)
    (h : app.step a = some app') {jobId : String} (hanswer : jobId ∈ a.submitted) :
    Dict.get? app'.jobStore jobId ≠ none := by
  cases step_seen hs h jobId with
  | moved _ _ _ hosted _ => exact fun hnone => nomatch hnone.symm.trans hosted.stored
  | created _ _ hrow _ => exact fun hnone => nomatch hnone.symm.trans hrow
  | born _ _ _ hosted _ => exact fun hnone => nomatch hnone.symm.trans hosted.stored
  | absent _ _ _ _ _ hsubmitted => exact absurd hanswer hsubmitted
  | forgotten _ _ _ _ _ hsubmitted => exact absurd hanswer hsubmitted

theorem run_answered {actions : List (AppAction R)} {jobId : String} :
    ∀ {app app' : AppState R}, Sound app → Runs.exec AppState.step app actions = some app' →
      jobId ∈ actions.flatMap AppAction.submitted → Dict.get? app'.jobStore jobId ≠ none := by
  induction actions with
  | nil => exact fun _ _ hanswer => absurd hanswer List.not_mem_nil
  | cons a actions ih =>
    intro app app' hs h hanswer
    obtain ⟨mid, hmid, hrest⟩ := Runs.exec_cons_iff.mp h
    have hmids := step_sound hs hmid
    rw [List.flatMap_cons, List.mem_append] at hanswer
    rcases hanswer with hfirst | hlater
    · exact fun hnone => step_answered hs hmid hfirst ((run_known jobId hmids hrest).mp hnone).1
    · exact ih hmids hrest hlater

theorem unknown_iff {app : AppState R} (hs : Sound app) (jobId : String) :
    (app.getRecord jobId = .error (unknownJob jobId) ↔ Dict.get? app.jobStore jobId = none) ∧
    (app.cancelJob jobId = .error (unknownJob jobId) ↔ Dict.get? app.jobStore jobId = none) ∧
    ∀ e, app.getRecord jobId = .error e → e = unknownJob jobId := by
  unfold AppState.getRecord AppState.cancelJob
  cases hr : Dict.get? app.runners jobId with
  | some r =>
    rw [(hs.hosted jobId r hr).stored]
    refine ⟨iff_of_false ?_ (Option.some_ne_none _), iff_of_false ?_ (Option.some_ne_none _), ?_⟩
    · exact fun h => by cases h
    · exact fun h => by cases h
    · exact fun _ h => by cases h
  | none =>
    cases hstored : Dict.get? app.jobStore jobId with
    | none => exact ⟨iff_of_true rfl rfl, iff_of_true rfl rfl, fun e h => (Except.error.inj h).symm⟩
    | some record =>
      refine ⟨iff_of_false ?_ (Option.some_ne_none _), iff_of_false ?_ (Option.some_ne_none _), ?_⟩
      · exact fun h => by cases h
      · intro h
        have hdetail : inactiveJob.statusCode = (unknownJob jobId).statusCode :=
          congrArg HttpException.statusCode (Except.error.inj h)
        exact absurd hdetail (by decide : (409 : ℕ) ≠ 404)
      · exact fun _ h => by cases h

/-- Over any number of restarts, a request for a job is answered 404 exactly if no
submission created its row, nor was it in the store at the outset; a status request has no
other way to fail, and none for an id that a submission was answered with. -/
theorem unknown_iff_not_created {now wall : ℚ} {jobStore : List (String × JobRecord)}
    {actions : List (AppAction R)} {app : AppState R}
    (hrun : Runs.exec AppState.step (AppState.boot now wall jobStore) actions = some app)
    (jobId : String) :
    (app.getRecord jobId = .error (unknownJob jobId) ↔
      Dict.get? jobStore jobId = none ∧ jobId ∉ actions.flatMap AppAction.created) ∧
    (app.cancelJob jobId = .error (unknownJob jobId) ↔
      Dict.get? jobStore jobId = none ∧ jobId ∉ actions.flatMap AppAction.created) ∧
    (∀ e, app.getRecord jobId = .error e → e = unknownJob jobId) ∧
    (jobId ∈ actions.flatMap AppAction.submitted →
      app.getRecord jobId ≠ .error (unknownJob jobId)) := by
  have hboot := boot_sound (R := R) now wall jobStore
  obtain ⟨hget, hcancel, honly⟩ := unknown_iff (run_sound hboot hrun) jobId
  have hknown := run_known jobId hboot hrun
  refine ⟨hget.trans hknown, hcancel.trans hknown, honly, fun hanswer herror => ?_⟩
  exact run_answered hboot hrun hanswer (hget.mp herror)

/-- The third id is known though no submission was answered with it. -/
theorem unknown_iff_not_created_twoJobs :
    twoJobs.getRecord "03" ≠ .error (unknownJob "03") ∧
      twoJobs.getRecord "04" = .error (unknownJob "04") := by
  have hcreated : "03" ∈ twoJobsRun.flatMap AppAction.created := by decide +kernel
  have hnever : "04" ∉ twoJobsRun.flatMap AppAction.created := by decide +kernel
  refine ⟨fun herror => ?_, (unknown_iff_not_created twoJobs_run "04").1.mpr ⟨rfl, hnever⟩⟩
  exact ((unknown_iff_not_created twoJobs_run "03").1.mp herror).2 hcreated

/-! ## What a poller sees -/

/-- No action makes a spend check of this job raise. -/
def QuietFor (jobId : String) (actions : List (AppAction R)) : Prop :=
  ∀ signal ∈ actions.flatMap (AppAction.heard jobId), signal.raisesInCheck = false

/-- A job of earlier times, of which the row is left. -/
structure Left (app : AppState R) (jobId : String) (row : JobRecord) : Prop where
  runner : Dict.get? app.runners jobId = none
  pending : jobId ∉ app.pending
  row : Dict.get? app.jobStore jobId = some row

/-- What became of the job in state `s`: it went on, and is still hosted, or was left behind
by a restart with the row that it had saved. -/
inductive Fate (app : AppState R) (jobId : String) (J : JobRunner R) (s : State J.concurrency)
    (quiet restarted : Prop) : Prop
  | hosted {moves : List (Action R J.concurrency)} {s' : State J.concurrency}
      (hrun : Runs.exec (Core.step J) s moves = some s')
      (hquiet : quiet → ∀ a ∈ moves, a.raisesInCheck = false)
      (hr : Dict.get? app.runners jobId = some ⟨J, s'⟩)
  | left {moves : List (Action R J.concurrency)} {s' : State J.concurrency}
      (hrun : Runs.exec (Core.step J) s moves = some s')
      (hquiet : quiet → ∀ a ∈ moves, a.raisesInCheck = false)
      (hleft : Left app jobId (s'.store.getD {})) (hrestarted : restarted)

/-- Nothing brings such a job back. -/
theorem step_left {app app' : AppState R} {a : AppAction R} {jobId : String} {row : JobRecord}
    (hs : Sound app) (h : app.step a = some app') (hleft : Left app jobId row) :
    Left app' jobId row := by
  obtain ⟨hr, hpending, hrow⟩ := hleft
  cases step_seen hs h jobId with
  | moved hr' _ _ _ _ => cases hr.symm.trans hr'
  | created hnew _ _ _ => cases hnew.symm.trans hrow
  | born hpending' _ _ _ _ => exact absurd hpending' hpending
  | absent _ hr' hrow' hpending' _ _ =>
    exact ⟨hr', fun hmem => hpending (hpending' hmem), hrow'.trans hrow⟩
  | forgotten _ hr' hrow' hpending' _ _ => exact ⟨hr', hpending', hrow'.trans hrow⟩

theorem run_left {app app' : AppState R} {actions : List (AppAction R)} {jobId : String}
    {row : JobRecord} (hs : Sound app) (hrun : Runs.exec AppState.step app actions = some app')
    (hleft : Left app jobId row) : Left app' jobId row := by
  have hkept : Sound app' ∧ Left app' jobId row := by
    refine Runs.exec_invariant' (I := fun app : AppState R => Sound app ∧ Left app jobId row) ?_
      ⟨hs, hleft⟩ hrun
    exact fun app a app' hs h => ⟨step_sound hs.1 h, step_left hs.1 h hs.2⟩
  exact hkept.2

theorem run_fate {app : AppState R} {jobId : String} {r : Runner R} (hs : Sound app)
    (hr : Dict.get? app.runners jobId = some r) (actions : List (AppAction R)) :
    ∀ {app' : AppState R}, Runs.exec AppState.step app actions = some app' →
      Fate app' jobId r.job r.state (QuietFor jobId actions)
        (∃ a ∈ actions, a.isRestart = true) := by
  induction actions using List.reverseRecOn with
  | nil =>
    intro app' h
    obtain rfl := Option.some.inj h
    have hnothing : Runs.exec (Core.step r.job) r.state [] = some r.state := rfl
    exact .hosted hnothing (fun _ => List.forall_mem_nil _) hr
  | append_singleton actions a ih =>
    intro app' h
    obtain ⟨mid, hmid, hstep⟩ := Runs.exec_snoc.mp h
    have hsound := run_sound hs hmid
    have hsplit : QuietFor jobId (actions ++ [a]) →
        QuietFor jobId actions ∧ ∀ signal ∈ a.heard jobId, signal.raisesInCheck = false := by
      unfold QuietFor
      rw [List.flatMap_append, List.flatMap_singleton]
      exact List.forall_mem_append.mp
    cases ih hmid with
    | @hosted moves s' hrun hquiet hr' =>
      cases step_seen hsound hstep jobId with
      | @moved r₀ r₁ hr₀ hr₁ hmove _ _ =>
        obtain rfl := Option.some.inj (hr'.symm.trans hr₀)
        obtain ⟨more, s₁, hmore, hs₁, rfl⟩ := runner_exec hmove
        refine .hosted (Runs.exec_append.mpr ⟨s', hrun, hs₁⟩) (fun hall => ?_) hr₁
        exact List.forall_mem_append.mpr
          ⟨hquiet (hsplit hall).1, quiet_actions hmore (hsplit hall).2⟩
      | created hnew _ _ _ => cases hnew.symm.trans (hsound.hosted jobId _ hr').stored
      | born hpending _ _ _ _ => exact absurd hpending (hsound.not_pending hr')
      | absent hnone _ _ _ _ _ => cases hnone.symm.trans hr'
      | forgotten ha hnone hrow hpending _ _ =>
        have hrestarted : ∃ b ∈ actions ++ [a], b.isRestart = true :=
          ⟨a, List.mem_append_right _ (List.mem_singleton_self a), ha⟩
        exact .left hrun (fun hall => hquiet (hsplit hall).1)
          ⟨hnone, hpending, hrow.trans (hsound.hosted jobId _ hr').stored⟩ hrestarted
    | left hrun hquiet hleft hrestarted =>
      obtain ⟨b, hb, hrestart⟩ := hrestarted
      exact .left hrun (fun hall => hquiet (hsplit hall).1) (step_left hsound hstep hleft)
        ⟨b, List.mem_append_left _ hb, hrestart⟩

theorem getRecord_hosted {app : AppState R} {jobId : String} {r : Runner R}
    (hr : Dict.get? app.runners jobId = some r) :
    app.getRecord jobId = .ok r.state.ctx.record := by
  unfold AppState.getRecord
  rw [hr]

theorem getRecord_row {app : AppState R} {jobId : String} {row : JobRecord}
    (hr : Dict.get? app.runners jobId = none) (hrow : Dict.get? app.jobStore jobId = some row) :
    app.getRecord jobId = .ok row := by
  unfold AppState.getRecord
  rw [hr, hrow]

/-- Of two polls of a job the later one is answered too. Without a restart in between it
sees no counter go back, and a terminal record as it was; as long as no spend check of the
job raises, a restart takes back at most 25 ingested entries and `5 * c + 26` outcomes; and
what is not hosted any more never changes. -/
theorem polls_ordered {app app' : AppState R} {actions : List (AppAction R)} {jobId : String}
    {record : JobRecord} (h : Served app) (hrun : Runs.exec AppState.step app actions = some app')
    (hpending : jobId ∉ app.pending) (hpoll : app.getRecord jobId = .ok record) :
    ∃ record', app'.getRecord jobId = .ok record' ∧
      ((∀ a ∈ actions, a.isRestart = false) → record.Behind record' ∧
        (record.status.IsTerminal → record' = record)) ∧
      (∀ r, Dict.get? app.runners jobId = some r → Unraised r.job r.state →
        QuietFor jobId actions → record.counts.ingested ≤ record'.counts.ingested + 25 ∧
        done record.counts ≤ done record'.counts + (5 * r.job.concurrency + 26)) ∧
      (Dict.get? app.runners jobId = none → record' = record) := by
  have hs := h.sound
  cases hr : Dict.get? app.runners jobId with
  | none =>
    cases hrow : Dict.get? app.jobStore jobId with
    | none =>
      have hunknown := (unknown_iff hs jobId).1.mpr hrow
      cases hunknown.symm.trans hpoll
    | some row =>
      obtain rfl := Except.ok.inj ((getRecord_row hr hrow).symm.trans hpoll)
      have hleft := run_left hs hrun ⟨hr, hpending, hrow⟩
      exact ⟨row, getRecord_row hleft.runner hleft.row, fun _ => ⟨.refl row, fun _ => rfl⟩,
        fun _ hr₁ => by (cases hr₁), fun _ => rfl⟩
  | some r =>
    obtain rfl := Except.ok.inj ((getRecord_hosted hr).symm.trans hpoll)
    have hreach := (hs.hosted jobId r hr).reachable
    cases run_fate hs hr actions hrun with
    | @hosted moves s' hmoves _ hr' =>
      have hbehind := run_behind hreach hmoves
      refine ⟨s'.ctx.record, getRecord_hosted hr', fun _ => ⟨hbehind, fun hterminal => ?_⟩, ?_,
        fun hnone => by cases hnone⟩
      · exact (run_final hreach (stage_of_terminal hreach hterminal) hmoves).1
      · rintro r₁ hr₁ - -
        obtain rfl := Option.some.inj hr₁
        have hingested := hbehind.ingested
        have hsucceeded := hbehind.succeeded
        have hfailed := hbehind.failed
        unfold done
        omega
    | @left moves s' hmoves hquiet hleft hrestarted =>
      obtain ⟨a, ha, hrestart⟩ := hrestarted
      refine ⟨_, getRecord_row hleft.runner hleft.row, ?_, ?_, fun hnone => by cases hnone⟩
      · intro hall
        cases (hall a ha).symm.trans hrestart
      · intro r₁ hr₁ hunraised hall
        obtain rfl := Option.some.inj hr₁
        have hbehind := run_behind hreach hmoves
        have hlag := row_lag (hunraised.exec hmoves (hquiet hall))
        have hingested := hbehind.ingested
        have hsucceeded := hbehind.succeeded
        have hfailed := hbehind.failed
        unfold done at hlag ⊢
        omega

theorem twoJobs_served : Served twoJobs := ⟨0, 0, [], twoJobsRun, twoJobs_run⟩

def restarted : AppState CallResult :=
  { twoJobs with now := 9, wall := 9, runners := [], pending := [] }

theorem twoJobsRun_quiet : QuietFor "01" twoJobsRun := by
  unfold QuietFor
  decide +kernel

theorem firstOfTwo_unraised : Unraised firstOfTwo.job firstOfTwo.state := by
  obtain ⟨before, job, later, born, moves, s, hsplit, -, -, hmoves, hs, hr⟩ :=
    hosted_run twoJobs_run (show Dict.get? twoJobs.runners "01" = some firstOfTwo from
      (Option.some_get _).symm)
  rw [hr]
  refine ⟨_, _, moves, hs, quiet_actions hmoves fun signal hsignal => ?_⟩
  refine twoJobsRun_quiet signal ?_
  rw [hsplit, List.flatMap_append, List.flatMap_cons]
  exact List.mem_append_right _ (List.mem_append_right _ hsignal)

/-- The one entry that the first job had read is not in the row that it had saved. -/
theorem polls_ordered_restarted : ∃ record', restarted.getRecord "01" = .ok record' ∧
    1 ≤ record'.counts.ingested + 25 := by
  have hr : Dict.get? twoJobs.runners "01" = some firstOfTwo := (Option.some_get _).symm
  have hrestart : Runs.exec AppState.step twoJobs [.restart 9 9] = some restarted := rfl
  have hone : firstOfTwo.state.ctx.record.counts.ingested = 1 := by decide +kernel
  have hpending : "01" ∉ twoJobs.pending := by decide +kernel
  obtain ⟨record', hpoll, -, hlag, -⟩ :=
    polls_ordered twoJobs_served hrestart hpending (getRecord_hosted hr)
  have hingested := (hlag firstOfTwo hr firstOfTwo_unraised (List.forall_mem_nil _)).1
  rw [hone] at hingested
  exact ⟨record', hpoll, hingested⟩

/-- After a restart nothing ever happens to a job of the time before: every poll sees the
row that was saved last, a cancel is refused, and without `partial` so is every download,
exactly if the run had not come to its last save. -/
theorem left_behind {app mid app' : AppState R} {now wall : ℚ} {later : List (AppAction R)}
    {jobId : String} {row : JobRecord} (h : Served app)
    (hrestart : app.step (.restart now wall) = some mid)
    (hrun : Runs.exec AppState.step mid later = some app')
    (hrow : Dict.get? app.jobStore jobId = some row) :
    app'.getRecord jobId = .ok row ∧ app'.cancelJob jobId = .error inactiveJob ∧
      (∀ host format incl file,
        app'.download host jobId false format incl file = .ok .conflict ↔
          ¬ row.status.IsTerminal) ∧
      ∀ r, Dict.get? app.runners jobId = some r →
        (row.status.IsTerminal ↔ r.state.phase.stage = .saved) := by
  have hs := h.sound
  obtain rfl := Option.some.inj hrestart
  obtain ⟨hr', -, hrow'⟩ := run_left (step_sound hs hrestart) hrun ⟨rfl, List.not_mem_nil, hrow⟩
  have hrecord := getRecord_row hr' hrow'
  refine ⟨hrecord, ?_, ?_, ?_⟩
  · unfold AppState.cancelJob
    rw [hr', hrow']
  · intro host format incl file
    rw [← conflict_iff host format incl file, AppState.download, hrecord]
    exact ⟨Except.ok.inj, congrArg Except.ok⟩
  · intro r hr
    have hosted := hs.hosted jobId r hr
    have hreach := hosted.reachable
    have hsaved : some row = some (r.state.store.getD {}) := hrow.symm.trans hosted.stored
    obtain rfl := Option.some.inj hsaved
    have hfacts := reachable_stageFacts hreach
    constructor
    · intro hterminal
      by_contra hstage
      cases hstore : r.state.store with
      | none =>
        rw [hstore] at hterminal
        exact absurd hterminal (by decide)
      | some row =>
        rw [hstore] at hterminal
        exact reachable_storeOpen hreach hstage row hstore hterminal
    · intro hstage
      rw [hstage] at hfacts
      rw [hfacts.2.2]
      exact hfacts.1.1

/-- The second job was running and cancelled; after the restart it is running for ever. -/
theorem left_behind_restarted :
    restarted.getRecord "02" = .ok { status := .running } ∧
      restarted.cancelJob "02" = .error inactiveJob := by
  have hrow : Dict.get? twoJobs.jobStore "02" = some { status := .running } := by decide +kernel
  have hrestart : twoJobs.step (.restart 9 9) = some restarted := rfl
  have hnothing : Runs.exec AppState.step restarted [] = some restarted := rfl
  obtain ⟨hrecord, hcancel, -, -⟩ := left_behind twoJobs_served hrestart hnothing hrow
  exact ⟨hrecord, hcancel⟩

end BatchEngine.Api
