import BatchEngine.Core.JobBill
import BatchEngine.Core.ResultFile
import Mathlib.Algebra.Order.BigOperators.Group.List
import Mathlib.Data.List.Perm.Basic

/-!
# The server and its cross-run cap

`submit_job` reads the ledger before it starts a live job, and the job charges the ledger
when it is over. In between nothing is set aside for it, and any number of jobs may run: the
cap holds where the worst cases of the jobs leave room for it.
-/

set_option autoImplicit false

namespace BatchEngine.Api

open BatchEngine.Core BatchEngine.Providers
open Py (Host Exc PyFloat)

/-! ## Submission -/

/-- What of the settings a live job is built from. -/
structure Settings where
  batchengineModel : String := "mistral-3-14B"
  batchengineRateLimitRpm : ℕ := 120
  batchengineCircuitCooldownS : ℚ := 30
  batchengineRetryBaseS : ℚ := 1 / 2
  batchengineRetryCapS : ℚ := 30
  batchengineMaxJobSpendUsd : ℚ := 1 / 4
  batchengineMaxTotalSpendUsd : ℚ := 1
  batchengineLiveSampleSize : ℕ := 50
  batchengineMaxLiveItems : ℕ := 1000

structure JobSubmitRequest where
  model : Option String := none
  concurrency : Option ℕ := none
  webhookUrl : Option String := none

/-- `body.model or settings.batchengine_model`. -/
def Settings.model (settings : Settings) (body : JobSubmitRequest) : String :=
  match body.model with
  | none | some "" => settings.batchengineModel
  | some model => model

def Settings.maxItems (settings : Settings) : ℕ :=
  min settings.batchengineLiveSampleSize settings.batchengineMaxLiveItems

/-- The runner of a live job whose file holds this input. -/
def Settings.runner (settings : Settings) (body : JobSubmitRequest) (input : InputStream) :
    JobRunner HttpReply where
  provider := digitalOceanProvider (settings.model body)
  config :=
    { concurrency := body.concurrency, maxJobSpendUsd := settings.batchengineMaxJobSpendUsd,
      maxItems := some settings.maxItems }
  retryBaseS := settings.batchengineRetryBaseS
  retryCapS := settings.batchengineRetryCapS
  rateLimitRpm := settings.batchengineRateLimitRpm
  circuitCooldownS := settings.batchengineCircuitCooldownS
  hasWebhook := body.webhookUrl.isSome
  input := input

/-- `total >= cap`. -/
def reaches (cap : ℚ) : PyFloat → Bool
  | .fin q => cap ≤ q
  | .posInf => true
  | .negInf | .nan => false

/-- `f"{total:.4f}"`. -/
def fixedFloat (places : ℕ) : PyFloat → String
  | .fin q => Py.fixed places q
  | .posInf => "inf"
  | .negInf => "-inf"
  | .nan => "nan"

inductive SubmitAnswer where
  | accepted
  | badRequest (detail : String)
  | paymentRequired (detail : String)
  | serverError (exc : Exc)
  deriving DecidableEq

def exhaustedDetail (host : Host) (total : PyFloat) (cap : ℚ) : String :=
  "spend ledger exhausted ($" ++ fixedFloat 4 total ++ " >= $" ++
    String.ofList (host.reprFloat cap).text ++ "); refusing to start a live job"

/-- `submit_job` with an inference key. `invalid` is what the checks of the input path and
of the webhook's URL object to. -/
def submitJob (host : Host) (settings : Settings) (ledger : LedgerFile)
    (invalid : Option String) : SubmitAnswer :=
  match invalid with
  | some detail => .badRequest detail
  | none =>
    match loadTotalSpend ledger with
    | .error exc => .serverError exc
    | .ok total =>
      if reaches settings.batchengineMaxTotalSpendUsd total then
        .paymentRequired (exhaustedDetail host total settings.batchengineMaxTotalSpendUsd)
      else .accepted

/-! ## The server -/

/-- A live job, and how its run goes until it is over. -/
structure LiveJob (settings : Settings) where
  body : JobSubmitRequest
  input : InputStream
  now : ℚ
  wall : ℚ
  actions : List (Action HttpReply (settings.runner body input).concurrency)
  last : State (settings.runner body input).concurrency
  exc : Option RunException
  ran : Runs.exec (step (settings.runner body input)) ((settings.runner body input).start now wall)
    actions = some last
  finished : last.phase = .finished exc

/-- `_run_and_settle` of the job. -/
def LiveJob.runAndSettle {settings : Settings} (job : LiveJob settings) (ledger : LedgerFile) :
    LedgerFile :=
  settle job.last.ctx.record true ledger

/-- `running` are the jobs that were accepted and have not yet charged the ledger. -/
structure Server (settings : Settings) where
  ledger : LedgerFile
  running : List (LiveJob settings) := []

inductive ServerAction (settings : Settings) where
  | submit (invalid : Option String) (job : LiveJob settings)
  | complete (k : ℕ)

variable {host : Host} {settings : Settings}

variable (host) in
def Server.step (s : Server settings) : ServerAction settings → Option (Server settings)
  | .submit invalid job =>
    some (if submitJob host settings s.ledger invalid = .accepted then
      { s with running := s.running ++ [job] } else s)
  | .complete k =>
    s.running[k]?.map fun job =>
      { ledger := job.runAndSettle s.ledger, running := s.running.eraseIdx k }

/-! ## What is charged and what is owed -/

/-- What the job adds to the ledger when it is over. -/
def LiveJob.charge (job : LiveJob settings) : ℚ :=
  max 0 job.last.ctx.record.usage.estimatedCostUsd

def charges (jobs : List (LiveJob settings)) : ℚ := (jobs.map LiveJob.charge).sum

/-- `total <= cap`. -/
def Within (cap : ℚ) : PyFloat → Prop
  | .fin q => q ≤ cap
  | .negInf => True
  | .posInf | .nan => False

/-- `total < cap`. -/
def Below (cap : ℚ) : PyFloat → Prop
  | .fin q => q < cap
  | .negInf => True
  | .posInf | .nan => False

/-- With `more` added, the recorded total is at most the cap. -/
def Covers (settings : Settings) (ledger : LedgerFile) (more : ℚ) : Prop :=
  ∃ total, loadTotalSpend ledger = .ok total ∧
    Within settings.batchengineMaxTotalSpendUsd (plus total more)

/-- The recorded total is never above the cap. -/
def CapKept (host : Host) (s : Server settings) (actions : List (ServerAction settings)) : Prop :=
  ∀ before after t, actions = before ++ after →
    Runs.exec (Server.step host) s before = some t → Covers settings t.ledger 0

/-- A job that is accepted fits under the cap with all that is recorded and running. -/
def Fits (host : Host) (s : Server settings) : ServerAction settings → Prop
  | .submit invalid job => submitJob host settings s.ledger invalid = .accepted →
      Covers settings s.ledger (charges s.running + job.charge)
  | .complete _ => True

theorem plus_plus (total : PyFloat) (a b : ℚ) : plus (plus total a) b = plus total (a + b) := by
  cases total with
  | fin q => exact congrArg PyFloat.fin (add_assoc q a b)
  | _ => rfl

theorem Within.of_plus {cap d : ℚ} {total : PyFloat} (hd : 0 ≤ d)
    (h : Within cap (plus total d)) : Within cap total := by
  cases total with
  | fin q => exact (le_add_of_nonneg_right hd).trans h
  | _ => exact h

theorem Below.within {cap : ℚ} {total : PyFloat} (h : Below cap total) :
    Within cap (plus total 0) := by
  cases total with
  | fin q => exact (add_zero q).trans_le h.le
  | _ => exact h

/-- The charge is the cost of the tokens that the upstream reported to the job, unless its
record was never finalised. -/
theorem LiveJob.charge_eq (job : LiveJob settings) :
    job.charge = max 0 (estimateAt job.last.phase.stage
      (spentUsd (settings.runner job.body job.input) job.actions)) := by
  have hestimate := reachable_estimated ⟨job.now, job.wall, job.actions, job.ran⟩
  unfold Estimated at hestimate
  rw [costUsd_run job.ran] at hestimate
  rw [LiveJob.charge, hestimate]

theorem LiveJob.charge_nonneg (job : LiveJob settings) : 0 ≤ job.charge := le_max_left 0 _

theorem charges_nonneg (jobs : List (LiveJob settings)) : 0 ≤ charges jobs := by
  refine List.sum_nonneg fun x hx => ?_
  obtain ⟨job, -, rfl⟩ := List.mem_map.mp hx
  exact job.charge_nonneg

theorem charges_snoc (jobs : List (LiveJob settings)) (job : LiveJob settings) :
    charges (jobs ++ [job]) = charges jobs + job.charge := by
  rw [charges, List.map_append, List.sum_append, charges, List.map_singleton, List.sum_singleton]

theorem charges_eraseIdx {jobs : List (LiveJob settings)} {k : ℕ} {job : LiveJob settings}
    (h : jobs[k]? = some job) : job.charge + charges (jobs.eraseIdx k) = charges jobs := by
  obtain ⟨hk, rfl⟩ := List.getElem?_eq_some_iff.mp h
  have hperm := ((List.getElem_cons_eraseIdx_perm hk).map LiveJob.charge).sum_eq
  rwa [List.map_cons, List.sum_cons] at hperm

theorem Covers.mono {ledger : LedgerFile} {a b : ℚ} (h : Covers settings ledger b) (hab : a ≤ b) :
    Covers settings ledger a := by
  obtain ⟨total, hload, hwithin⟩ := h
  refine ⟨total, hload, Within.of_plus (sub_nonneg.mpr hab) ?_⟩
  rwa [plus_plus, add_sub_cancel]

/-- A settlement moves what is owed to the ledger. -/
theorem covers_settle {ledger : LedgerFile} (job : LiveJob settings) (more : ℚ) :
    Covers settings (job.runAndSettle ledger) more ↔
      Covers settings ledger (job.charge + more) := by
  cases hload : loadTotalSpend ledger with
  | error e =>
    have hsame : job.runAndSettle ledger = ledger := by
      unfold LiveJob.runAndSettle settle recordSpend
      rw [if_pos rfl, hload]
      rfl
    have hno : ∀ more, ¬ Covers settings ledger more := by
      rintro more ⟨total, htotal, -⟩
      cases hload.symm.trans htotal
    rw [hsame]
    exact iff_of_false (hno _) (hno _)
  | ok total =>
    have hsettled := loadTotalSpend_settle hload job.last.ctx.record
    constructor
    · rintro ⟨total', htotal', hwithin⟩
      obtain rfl := Except.ok.inj (hsettled.symm.trans htotal')
      rw [plus_plus] at hwithin
      exact ⟨total, hload, hwithin⟩
    · rintro ⟨total', htotal', hwithin⟩
      obtain rfl := Except.ok.inj (hload.symm.trans htotal')
      refine ⟨_, hsettled, ?_⟩
      rw [plus_plus]
      exact hwithin

/-! ## The law -/

/-- What is recorded and what the running jobs will add are together under the cap. -/
def Solvent (s : Server settings) : Prop := Covers settings s.ledger (charges s.running)

/-- Accepted jobs add to what is owed; a completion only moves it. -/
theorem step_solvent {s t : Server settings} {a : ServerAction settings}
    (h : s.step host a = some t) : Solvent t ↔ Solvent s ∧ Fits host s a := by
  cases a with
  | submit invalid job =>
    obtain rfl := Option.some.inj h
    by_cases haccepted : submitJob host settings s.ledger invalid = .accepted
    · rw [if_pos haccepted]
      show Covers settings s.ledger (charges (s.running ++ [job])) ↔ _
      rw [charges_snoc]
      constructor
      · exact fun hcovers =>
          ⟨hcovers.mono (le_add_of_nonneg_right job.charge_nonneg), fun _ => hcovers⟩
      · exact fun hboth => hboth.2 haccepted
    · rw [if_neg haccepted]
      exact (and_iff_left fun hyes => absurd hyes haccepted).symm
  | complete k =>
    obtain ⟨job, hjob, rfl⟩ := Option.map_eq_some_iff.mp h
    show Covers settings (job.runAndSettle s.ledger) (charges (s.running.eraseIdx k)) ↔ _
    rw [covers_settle, charges_eraseIdx hjob]
    exact (and_iff_left trivial).symm

theorem run_solvent {s u : Server settings} {actions : List (ServerAction settings)}
    (hrun : Runs.exec (Server.step host) s actions = some u) :
    Solvent u ↔ Solvent s ∧ Runs.Along (Server.step host) (Fits host) s actions := by
  have hlaw := Runs.flawless_iff_along (D := fun s : Server settings => ¬ Solvent s)
    (I := fun _ => True) (Q := Fits host) (fun _ _ _ _ _ => trivial)
    (fun s a t _ hstep => by rw [step_solvent hstep, not_and_or]) trivial hrun
  rwa [not_not, not_not] at hlaw

theorem cap_kept_of_fits {ledger : LedgerFile} {total : PyFloat}
    (hload : loadTotalSpend ledger = .ok total)
    (hbelow : Below settings.batchengineMaxTotalSpendUsd total)
    {actions : List (ServerAction settings)}
    (hfits : Runs.Along (Server.step host) (Fits host) { ledger } actions) :
    CapKept host { ledger } actions := by
  have hstart : Solvent ({ ledger } : Server settings) := ⟨total, hload, hbelow.within⟩
  intro before after t hactions hbefore
  rw [hactions] at hfits
  have hsolvent : Solvent t := (run_solvent hbefore).mpr ⟨hstart, hfits.start⟩
  exact Covers.mono hsolvent (charges_nonneg t.running)

/-! ## What is known when a job is accepted -/

/-- The upstream's answers to the job report within the limits. -/
def LiveJob.Within (limits : TokenLimits) (job : LiveJob settings) : Prop :=
  ∀ a ∈ job.actions, a.Within (settings.runner job.body job.input).toWorkerConfig limits

/-- What the job can cost at most, by its model, the item cap and the limits. -/
def LiveJob.worst (limits : TokenLimits) (job : LiveJob settings) : ℚ :=
  worstCost (settings.runner job.body job.input).toWorkerConfig limits (max 1 settings.maxItems)

def worsts (limits : TokenLimits) (jobs : List (LiveJob settings)) : ℚ :=
  (jobs.map (LiveJob.worst limits)).sum

/-- A job that is accepted fits under the cap with the recorded total in its worst case and
those of the running jobs. -/
def Reserved (host : Host) (limits : TokenLimits) (s : Server settings) :
    ServerAction settings → Prop
  | .submit invalid job => submitJob host settings s.ledger invalid = .accepted →
      job.Within limits ∧ Covers settings s.ledger (worsts limits s.running + job.worst limits)
  | .complete _ => True

/-- With a job that is accepted no more than `k` run, and in its worst case it costs at most
`w`. -/
def Crowded (host : Host) (limits : TokenLimits) (k : ℕ) (w : ℚ) (s : Server settings) :
    ServerAction settings → Prop
  | .submit invalid job => submitJob host settings s.ledger invalid = .accepted →
      job.Within limits ∧ job.worst limits ≤ w ∧ s.running.length + 1 ≤ k
  | .complete _ => True

theorem LiveJob.worst_nonneg (limits : TokenLimits) (job : LiveJob settings) :
    0 ≤ job.worst limits := by
  obtain ⟨hin, hout⟩ := pricing_nonneg (settings.model job.body)
  exact worstCost_nonneg (W := (settings.runner job.body job.input).toWorkerConfig) hin hout _ _

theorem LiveJob.charge_le_worst {limits : TokenLimits} {job : LiveJob settings}
    (h : job.Within limits) : job.charge ≤ job.worst limits := by
  obtain ⟨hin, hout⟩ := pricing_nonneg (settings.model job.body)
  have hcost := costUsd_le_worst (J := settings.runner job.body job.input) hin hout rfl job.ran h
  have hzero := job.worst_nonneg limits
  rw [costUsd_run job.ran] at hcost
  rw [job.charge_eq]
  refine max_le hzero ?_
  unfold estimateAt
  split
  · exact hzero
  all_goals exact hcost

theorem charges_le_worsts {limits : TokenLimits} {jobs : List (LiveJob settings)}
    (h : ∀ job ∈ jobs, job.Within limits) : charges jobs ≤ worsts limits jobs :=
  List.sum_le_sum fun job hjob => LiveJob.charge_le_worst (h job hjob)

/-- Who runs was accepted. -/
theorem step_running {s t : Server settings} {a : ServerAction settings}
    (h : s.step host a = some t) {P : LiveJob settings → Prop} (hs : ∀ job ∈ s.running, P job)
    (ha : ∀ invalid job, a = .submit invalid job →
      submitJob host settings s.ledger invalid = .accepted → P job) :
    ∀ job ∈ t.running, P job := by
  cases a with
  | submit invalid job =>
    obtain rfl := Option.some.inj h
    by_cases haccepted : submitJob host settings s.ledger invalid = .accepted
    · rw [if_pos haccepted]
      exact List.forall_mem_append.mpr
        ⟨hs, List.forall_mem_singleton.mpr (ha invalid job rfl haccepted)⟩
    · rw [if_neg haccepted]
      exact hs
  | complete k =>
    obtain ⟨job, -, rfl⟩ := Option.map_eq_some_iff.mp h
    exact fun other hmem => hs other (List.mem_of_mem_eraseIdx hmem)

theorem reserved_fits {limits : TokenLimits} {actions : List (ServerAction settings)}
    {ledger : LedgerFile}
    (h : Runs.Along (Server.step host) (Reserved host limits) { ledger } actions) :
    Runs.Along (Server.step host) (Fits host) { ledger } actions := by
  refine Runs.Along.of_invariant
    (I := fun s : Server settings => ∀ job ∈ s.running, job.Within limits) ?_ ?_
    (List.forall_mem_nil _) h
  · intro s a t hs hreserved hstep
    refine step_running hstep hs fun invalid job ha haccepted => ?_
    subst ha
    exact (hreserved haccepted).1
  · intro s a hs hreserved
    cases a with
    | submit invalid job =>
      intro haccepted
      obtain ⟨hwithin, hcovers⟩ := hreserved haccepted
      exact hcovers.mono (add_le_add (charges_le_worsts hs) (LiveJob.charge_le_worst hwithin))
    | complete k => trivial

/-! ## How far the check can be overshot -/

/-- What is recorded and what the running jobs will add are together below the bound. -/
def Short (bound : ℚ) (s : Server settings) : Prop :=
  ∃ total, loadTotalSpend s.ledger = .ok total ∧ Below bound (plus total (charges s.running))

/-- An accepted job was accepted on a total below the cap. -/
theorem below_of_accepted {ledger : LedgerFile} {invalid : Option String} {total : PyFloat}
    (h : submitJob host settings ledger invalid = .accepted)
    (hload : loadTotalSpend ledger = .ok total) :
    reaches settings.batchengineMaxTotalSpendUsd total = false := by
  unfold submitJob at h
  rw [hload] at h
  split at h
  · cases h
  · simp only at h
    split at h
    · cases h
    · exact Bool.not_eq_true _ ▸ ‹_›

theorem charges_le {w : ℚ} {jobs : List (LiveJob settings)} (h : ∀ job ∈ jobs, job.charge ≤ w) :
    charges jobs ≤ jobs.length * w := by
  have hsum := List.sum_le_card_nsmul (jobs.map LiveJob.charge) w
    (List.forall_mem_map.mpr h)
  rwa [List.length_map, nsmul_eq_mul] at hsum

theorem step_short {limits : TokenLimits} {k : ℕ} {w : ℚ} (hw : 0 ≤ w) {s t : Server settings}
    {a : ServerAction settings} (h : s.step host a = some t) (ha : Crowded host limits k w s a)
    (hs : (∀ job ∈ s.running, job.charge ≤ w) ∧
      Short (settings.batchengineMaxTotalSpendUsd + k * w) s) :
    (∀ job ∈ t.running, job.charge ≤ w) ∧
      Short (settings.batchengineMaxTotalSpendUsd + k * w) t := by
  obtain ⟨hcharges, total, hload, hbelow⟩ := hs
  refine ⟨step_running h hcharges fun invalid job hsubmit haccepted => ?_, ?_⟩
  · subst hsubmit
    obtain ⟨hwithin, hworst, -⟩ := ha haccepted
    exact (LiveJob.charge_le_worst hwithin).trans hworst
  cases a with
  | submit invalid job =>
    obtain rfl := Option.some.inj h
    by_cases haccepted : submitJob host settings s.ledger invalid = .accepted
    · rw [if_pos haccepted]
      obtain ⟨hwithin, hworst, hcrowd⟩ := ha haccepted
      have hreaches := below_of_accepted haccepted hload
      refine ⟨total, hload, ?_⟩
      show Below _ (plus total (charges (s.running ++ [job])))
      have hall : ∀ other ∈ s.running ++ [job], other.charge ≤ w :=
        List.forall_mem_append.mpr ⟨hcharges,
          List.forall_mem_singleton.mpr ((LiveJob.charge_le_worst hwithin).trans hworst)⟩
      have hsum : charges (s.running ++ [job]) ≤ k * w := by
        refine (charges_le hall).trans (mul_le_mul_of_nonneg_right ?_ hw)
        rw [List.length_append, List.length_singleton]
        exact_mod_cast hcrowd
      cases total with
      | fin q =>
        have hq : q < settings.batchengineMaxTotalSpendUsd := by
          simpa [reaches] using hreaches
        exact add_lt_add_of_lt_of_le hq hsum
      | negInf => trivial
      | posInf => exact hbelow
      | nan => exact hbelow
    · rw [if_neg haccepted]
      exact ⟨total, hload, hbelow⟩
  | complete i =>
    obtain ⟨job, hjob, rfl⟩ := Option.map_eq_some_iff.mp h
    have hsettled := loadTotalSpend_settle hload job.last.ctx.record
    refine ⟨_, hsettled, ?_⟩
    show Below _ (plus (plus total job.charge) (charges (s.running.eraseIdx i)))
    rw [plus_plus, charges_eraseIdx hjob]
    exact hbelow

/-- The total stays under the cap if every job that is accepted fits under it in its worst
case, together with the recorded total and the worst cases of the running jobs. Whatever is
accepted, at most `k` jobs at once that cost at most `w` take it less than `k * w` over. -/
theorem cap_kept (limits : TokenLimits) {ledger : LedgerFile} {total : PyFloat}
    (hload : loadTotalSpend ledger = .ok total)
    (hbelow : Below settings.batchengineMaxTotalSpendUsd total)
    (actions : List (ServerAction settings)) :
    (Runs.Along (Server.step host) (Reserved host limits) { ledger } actions →
      CapKept host { ledger } actions) ∧
    (∀ (k : ℕ) (w : ℚ), 0 ≤ w →
      Runs.Along (Server.step host) (Crowded host limits k w) { ledger } actions →
      ∀ before after t, actions = before ++ after →
        Runs.exec (Server.step host) { ledger } before = some t →
        ∃ now, loadTotalSpend t.ledger = .ok now ∧
          Below (settings.batchengineMaxTotalSpendUsd + k * w) now) := by
  refine ⟨fun hreserved => cap_kept_of_fits hload hbelow (reserved_fits hreserved), ?_⟩
  intro k w hw hcrowded before after t hactions hbefore
  rw [hactions] at hcrowded
  have hstart : Short (settings.batchengineMaxTotalSpendUsd + k * w)
      ({ ledger } : Server settings) := by
    refine ⟨total, hload, ?_⟩
    have hmore : 0 ≤ (k : ℚ) * w := mul_nonneg (Nat.cast_nonneg k) hw
    cases total with
    | fin q =>
      show q + 0 < _
      rw [add_zero]
      exact hbelow.trans_le (le_add_of_nonneg_right hmore)
    | _ => exact hbelow
  obtain ⟨-, now, hnow, hshort⟩ := hcrowded.start.invariant
    (I := fun s : Server settings => (∀ job ∈ s.running, job.charge ≤ w) ∧
      Short (settings.batchengineMaxTotalSpendUsd + k * w) s)
    (fun s a t hs ha hstep => step_short hw hstep ha hs) ⟨List.forall_mem_nil _, hstart⟩ hbefore
  refine ⟨now, hnow, ?_⟩
  cases now with
  | fin q => exact (le_add_of_nonneg_right (charges_nonneg t.running)).trans_lt hshort
  | _ => exact hshort

/-- An answer that bills this many tokens. -/
def billingAnswer (tokens : ℤ) : HttpReply :=
  .response 200 [] "" (.ok (.obj
    [("choices", .arr [.obj [("message", .obj [("content", .str "hi")])]]),
     ("usage", .obj [("prompt_tokens", .int tokens), ("completion_tokens", .int 0)])]))

def billingBody : JobSubmitRequest := { concurrency := some 1 }

def billingInput : InputStream := { entries := [.item ⟨"a", "hello"⟩] }

def billingRunner : JobRunner HttpReply := Settings.runner {} billingBody billingInput

def billingRun (tokens : ℤ) : List (Action HttpReply 1) :=
  List.replicate 3 (.runner false) ++
  [.nth 0 .take, .nth 0 (.reply (billingAnswer tokens) 0 false)] ++
  List.replicate 4 (.runner false) ++ [.nth 0 .take, .runner false, .writer, .writer] ++
  List.replicate 3 (.runner false)

def millionEnd : State 1 :=
  (Runs.exec (step billingRunner) (billingRunner.start 0 0) (billingRun 1000000)).get
    (by decide +kernel)

/-- A job of one prompt whose answer bills a million tokens, which is 20 cents. -/
def million : LiveJob {} where
  body := billingBody
  input := billingInput
  now := 0
  wall := 0
  actions := billingRun 1000000
  last := millionEnd
  exc := none
  ran := (Option.some_get _).symm
  finished := by decide +kernel

theorem million_charge : million.charge = 1 / 5 := by decide +kernel

/-- The ledger of 95 cents. -/
def nearCap : LedgerFile := some (.ok (.obj [(totalSpendUsd, .float (.fin (19 / 20)))]))

theorem million_accepted (ledger : LedgerFile) (h : ledger = none ∨ ledger = nearCap) :
    submitJob tenthsHost {} ledger none = .accepted := by
  rcases h with rfl | rfl <;> decide +kernel

/-- One job of 20 cents on a ledger of 95 cents, with a cap of a dollar. -/
theorem cap_exceeded : ∃ (settings : Settings) (host : Host) (ledger : LedgerFile)
    (total : PyFloat) (actions : List (ServerAction settings)),
    loadTotalSpend ledger = .ok total ∧ Below settings.batchengineMaxTotalSpendUsd total ∧
      ¬ CapKept host { ledger } actions := by
  refine ⟨{}, tenthsHost, nearCap, .fin (19 / 20), [.submit none million, .complete 0], rfl, ?_, ?_⟩
  · show (19 / 20 : ℚ) < 1
    decide +kernel
  · intro hkept
    have hsubmit : Server.step tenthsHost { ledger := nearCap } (.submit none million) =
        some { ledger := nearCap, running := [million] } :=
      congrArg some (if_pos (million_accepted nearCap (Or.inr rfl)))
    have hrun : Runs.exec (Server.step tenthsHost) { ledger := nearCap }
        [.submit none million, .complete 0] =
          some { ledger := million.runAndSettle nearCap } := by
      rw [Runs.exec_cons, hsubmit]
      rfl
    have hend : Covers {} (million.runAndSettle nearCap) 0 :=
      hkept _ [] _ (List.append_nil _).symm hrun
    obtain ⟨total, hload, hwithin⟩ := (covers_settle million 0).mp hend
    obtain rfl : PyFloat.fin (19 / 20) = total := Except.ok.inj hload
    rw [million_charge] at hwithin
    have hover : ¬ (19 / 20 + (1 / 5 + 0) : ℚ) ≤ 1 := by decide +kernel
    exact hover hwithin

def modestEnd : State 1 :=
  (Runs.exec (step billingRunner) (billingRunner.start 0 0) (billingRun 20000)).get
    (by decide +kernel)

/-- The same with 20 000 tokens. -/
def modest : LiveJob {} where
  body := billingBody
  input := billingInput
  now := 0
  wall := 0
  actions := billingRun 20000
  last := modestEnd
  exc := none
  ran := (Option.some_get _).symm
  finished := by decide +kernel

def modestLimits : TokenLimits := ⟨20000, 0⟩

theorem modest_within : modest.Within modestLimits := by
  unfold LiveJob.Within
  decide +kernel

/-- Fifty answers of 20 000 tokens. -/
theorem modest_worst : modest.worst modestLimits = 1 / 5 := by decide +kernel

/-- Two such jobs at once on an empty ledger. -/
theorem cap_kept_twoJobs :
    CapKept tenthsHost ({ ledger := none } : Server {})
      [.submit none modest, .submit none modest, .complete 0, .complete 0] := by
  have haccepted := million_accepted none (Or.inl rfl)
  have hbelow : Below ({} : Settings).batchengineMaxTotalSpendUsd (.fin 0) :=
    (zero_lt_one : (0 : ℚ) < 1)
  have hfirst : Server.step tenthsHost { ledger := none } (.submit none modest) =
      some { ledger := none, running := [modest] } := congrArg some (if_pos haccepted)
  refine (cap_kept modestLimits rfl hbelow _).1 ⟨fun _ => ⟨modest_within, ?_⟩, fun s hs =>
    ⟨fun _ => ⟨modest_within, ?_⟩, fun t _ => ⟨trivial, fun u _ => ⟨trivial, fun _ _ => trivial⟩⟩⟩⟩
  · rw [modest_worst]
    refine ⟨.fin 0, rfl, ?_⟩
    show (0 + (0 + 1 / 5) : ℚ) ≤ 1
    decide +kernel
  · obtain rfl := Option.some.inj (hfirst.symm.trans hs)
    rw [worsts, List.map_singleton, List.sum_singleton, modest_worst]
    refine ⟨.fin 0, rfl, ?_⟩
    show (0 + (1 / 5 + 1 / 5) : ℚ) ≤ 1
    decide +kernel

end BatchEngine.Api
