import BatchEngine.Core.Conservation
import BatchEngine.Providers.DigitalOcean

/-!
# Which tokens a job counts

Usage is added in one place, on the success path. So over a run it is the sum of what
the replies classified as successes report, and the tokens of an answer without usable
content are never seen by the cost, the spend guard or the ledger.
-/

set_option autoImplicit false

namespace BatchEngine.Core

open BatchEngine.Providers

variable {R : Type*}

def UsageDelta.tokens (u : UsageDelta) : ℤ × ℤ := (u.inputTokens, u.outputTokens)

def UsageTotals.tokens (u : UsageTotals) : ℤ × ℤ := (u.inputTokens, u.outputTokens)

/-- The sum of `f` over the replies that the workers received. -/
def received {n : ℕ} (f : R → UsageDelta) (actions : List (Action R n)) : ℤ × ℤ :=
  (actions.map fun
    | .worker _ (.reply r _ _) => (f r).tokens
    | _ => 0).sum

/-- What `process_item` adds to the usage for a reply. -/
def WorkerConfig.counted (W : WorkerConfig R) (r : R) : UsageDelta :=
  match outcomeOf (W.provider.complete r) with
  | .transportError => {}
  | .response resp =>
    if (classify (.response resp)).1 = .success then ⟨resp.inputTokens, resp.outputTokens⟩ else {}

theorem received_add {n : ℕ} {f g k : R → UsageDelta}
    (h : ∀ r, (f r).tokens = (g r).tokens + (k r).tokens) (actions : List (Action R n)) :
    received f actions = received g actions + received k actions := by
  unfold received
  rw [← List.sum_map_add]
  refine congrArg List.sum (List.map_congr_left fun a _ => ?_)
  split
  · exact h _
  · exact (add_zero 0).symm

/-! ## One step -/

def rowTokens (rows : List Row) : ℤ × ℤ := (rows.map fun row => row.usage.tokens).sum

theorem settle_tokens (record : JobRecord) (row : Row) :
    (record.settle row).usage.tokens = record.usage.tokens + row.usage.tokens := by
  cases row with
  | result r => rfl
  | error e => exact (add_zero _).symm

theorem settles_tokens (rows : List Row) (record : JobRecord) :
    (rows.foldl JobRecord.settle record).usage.tokens = record.usage.tokens + rowTokens rows := by
  induction rows generalizing record with
  | nil => exact (add_zero _).symm
  | cons row rows ih =>
    rw [List.foldl_cons, ih, settle_tokens, add_assoc]
    rfl

theorem loopTurn_tokens {ctx : WorkerContext} {h : InHand} {ws' : WorkerState} {e : Effect}
    (hturn : LoopTurn ctx h ws' e) : rowTokens e.rows = 0 := by
  cases hturn <;> rfl

theorem retryTurn_tokens {h : InHand} {ws' : WorkerState} {e : Effect}
    (hturn : RetryTurn h ws' e) : rowTokens e.rows = 0 := by
  cases hturn <;> rfl

theorem counted_of_success {W : WorkerConfig R} {r : R} {resp : ProviderResponse}
    (hresp : outcomeOf (W.provider.complete r) = .response resp)
    (hclass : (classify (outcomeOf (W.provider.complete r))).1 = .success) :
    W.counted r = ⟨resp.inputTokens, resp.outputTokens⟩ := by
  rw [hresp] at hclass
  simp only [WorkerConfig.counted, hresp, hclass, ↓reduceIte]

theorem counted_of_failure {W : WorkerConfig R} {r : R}
    (hclass : (classify (outcomeOf (W.provider.complete r))).1 ≠ .success) :
    W.counted r = {} := by
  unfold WorkerConfig.counted
  split
  · rfl
  · rename_i resp hresp
    rw [hresp] at hclass
    exact if_neg hclass

/-- A reply puts into its rows exactly the tokens that are counted for it. -/
theorem callTurn_tokens {W : WorkerConfig R} {ctx' : WorkerContext} {h : InHand} {r : R}
    {raises : Bool} {ws' : WorkerState} {e : Effect}
    (hturn : CallTurn W ctx' h (outcomeOf (W.provider.complete r)) raises ws' e) :
    rowTokens e.rows = (W.counted r).tokens := by
  have hthrottled : FailureClass.throttled ≠ .success := by decide
  cases hturn with
  | succeeded hresp hclass =>
    rw [counted_of_success hresp hclass]
    exact add_zero _
  | raised hresp hclass _ =>
    rw [counted_of_success hresp hclass]
    exact add_zero _
  | fatal hclass _ =>
    rw [counted_of_failure fun hs => by rw [hs] at hclass; cases hclass]
    rfl
  | paused hclass => rw [counted_of_failure (hclass ▸ hthrottled)]; rfl
  | jittered hclass => rw [counted_of_failure (hclass ▸ hthrottled)]; rfl
  | failed hsuccess _ hretry =>
    rw [counted_of_failure hsuccess]
    exact retryTurn_tokens hretry

theorem turn_tokens {W : WorkerConfig R} {ctx ctx' : WorkerContext} {ws ws' : WorkerState} {n : ℕ}
    {i : Fin n} {input : WorkerInput R} {e : Effect} (hturn : Turn W ctx ctx' ws input ws' e) :
    rowTokens e.rows = received W.counted [Action.worker i input] := by
  cases hturn with
  | replied hcall =>
    rw [callTurn_tokens hcall]
    exact (add_zero _).symm
  | taken hloop =>
    have htokens := loopTurn_tokens hloop
    exact htokens
  | asked hloop => exact loopTurn_tokens hloop
  | looped hloop => exact loopTurn_tokens hloop
  | resumed hretry => exact retryTurn_tokens hretry
  | _ => rfl

variable {J : JobRunner R}

theorem step_tokens {s s' : State J.concurrency} {a : Action R J.concurrency}
    (h : JobTurn J s a s') :
    s'.ctx.record.usage.tokens = s.ctx.record.usage.tokens + received J.counted [a] := by
  cases h with
  | worker hturn hdoes =>
    rw [← turn_tokens hturn, ← settles_tokens, hdoes.record]
    rfl
  | _ => exact (add_zero _).symm

/-- The usage of a job is the sum of what was counted for the replies it received. -/
theorem run_tokens {now wall : ℚ} {actions : List (Action R J.concurrency)}
    {s : State J.concurrency} (hrun : Runs.exec (step J) (J.start now wall) actions = some s) :
    s.ctx.record.usage.tokens = received J.counted actions := by
  have hsum := Runs.exec_additive (I := fun _ => True)
    (f := fun s : State J.concurrency => s.ctx.record.usage.tokens)
    (g := fun a => received J.counted [a]) (fun _ _ _ _ _ => trivial)
    (fun s a t _ ht => step_tokens (step_turn ht)) trivial hrun
  have hstart : (J.start now wall).ctx.record.usage.tokens = 0 := rfl
  rw [hsum, hstart, zero_add]
  refine congrArg List.sum (List.map_congr_left fun a _ => ?_)
  exact add_zero _

/-! ## The live provider -/

/-- What an unusable answer reports. -/
def wasted (r : HttpReply) : UsageDelta := if r.usable then {} else r.reported

/-- For a live job the counted tokens are those that usable answers report. -/
theorem counted_live {W : WorkerConfig HttpReply} {model : String}
    (hlive : W.provider = digitalOceanProvider model) (r : HttpReply) :
    W.counted r = if r.usable then r.reported else {} := by
  have hcomplete : W.provider.complete r = DigitalOceanProvider.complete r := by rw [hlive]; rfl
  unfold WorkerConfig.counted
  rw [hcomplete]
  cases r with
  | transportError => rfl
  | otherException => rfl
  | response statusCode headers text body =>
    by_cases hstatus : statusCode = 200
    · subst hstatus
      cases body with
      | error e =>
        simp only [DigitalOceanProvider.complete, HttpReply.usable, bind, Except.bind]
        cases hcaught : caught e <;> rfl
      | ok body =>
        simp only [DigitalOceanProvider.complete, HttpReply.usable, bind, Except.bind]
        cases hbody : parseBody body with
        | error e => cases hcaught : caught e <;> simp [hcaught, outcomeOf, classify]
        | ok parsed =>
          cases parsed with
          | none => rfl
          | some parsed =>
            obtain ⟨hinput, houtput⟩ := parseBody_some hbody
            simp only [HttpReply.reported, reportedTokens, hinput, houtput, ↓reduceIte]
            rfl
    · have hreport : HttpReply.usable (.response statusCode headers text body) = false := by
        unfold HttpReply.usable
        split <;> simp_all
      rw [hreport]
      simp only [DigitalOceanProvider.complete, if_pos hstatus, outcomeOf]
      have hclass : (classify (.response
          { statusCode, text, headers := rateLimitHeaders.filterMap fun h =>
              (Dict.get? headers h).map fun v => (h, v) })).1 ≠ .success := by
        rw [Ne, classify_success_iff]
        rintro ⟨resp, hresp, h200, -⟩
        obtain rfl := Outcome.response.inj hresp
        exact hstatus h200
      exact if_neg hclass

/-- Every reported token is counted exactly if the unusable answers reported none. -/
theorem usage_complete_iff {J : JobRunner HttpReply} {model : String}
    (hlive : J.provider = digitalOceanProvider model) {now wall : ℚ}
    {actions : List (Action HttpReply J.concurrency)} {s : State J.concurrency}
    (hrun : Runs.exec (step J) (J.start now wall) actions = some s) :
    s.ctx.record.usage.tokens = received HttpReply.reported actions ↔
      received wasted actions = 0 := by
  have hsplit : received HttpReply.reported actions =
      received J.counted actions + received wasted actions := by
    refine received_add (fun r => ?_) actions
    rw [counted_live hlive, wasted]
    cases r.usable
    · exact (zero_add _).symm
    · exact (add_zero _).symm
  rw [run_tokens hrun, hsplit, left_eq_add]

/-- One prompt for a model that spends its whole budget on reasoning. -/
def reasoning : JobRunner HttpReply where
  provider := digitalOceanProvider "openai-gpt-oss-20b"
  config := { concurrency := some 1 }
  input := { entries := [.item ⟨"a", "hello"⟩] }

/-- A 200 with null content that bills 7 tokens in and 128 out. -/
def nullContent : HttpReply :=
  .response 200 [] "" (.ok (.obj
    [("choices", .arr [.obj [("message", .obj [("content", .null)])]]),
     ("usage", .obj [("prompt_tokens", .int 7), ("completion_tokens", .int 128)])]))

def reasoningRun : List (Action HttpReply 1) :=
  List.replicate 3 (.runner false) ++
  [.nth 0 .take, .nth 0 (.reply nullContent 0 false), .nth 0 (.wake 0),
    .nth 0 (.reply nullContent 0 false)] ++
  List.replicate 4 (.runner false) ++
  [.nth 0 .take, .runner false, .writer, .writer] ++ List.replicate 3 (.runner false)

def reasoningEnd : State 1 :=
  (Runs.exec (step reasoning) (reasoning.start 0 0) reasoningRun).get (by decide +kernel)

theorem reasoningEnd_tokens : reasoningEnd.ctx.record.usage.tokens = 0 := by decide +kernel

/-- Two billed answers of `reasoning` are missing from its usage when it is over. -/
theorem usage_incomplete : ∃ (J : JobRunner HttpReply) (model : String)
    (actions : List (Action HttpReply J.concurrency)) (s : State J.concurrency),
    J.provider = digitalOceanProvider model ∧
      Runs.exec (step J) (J.start 0 0) actions = some s ∧ s.phase = .finished none ∧
      s.ctx.record.usage.tokens ≠ received HttpReply.reported actions := by
  refine ⟨reasoning, "openai-gpt-oss-20b", reasoningRun, reasoningEnd, rfl,
    (Option.some_get _).symm, by decide +kernel, ?_⟩
  rw [reasoningEnd_tokens]
  decide +kernel

theorem usage_complete_iff_reasoning :
    reasoningEnd.ctx.record.usage.tokens = received HttpReply.reported reasoningRun ↔
      received wasted reasoningRun = 0 := by
  have hlive : reasoning.provider = digitalOceanProvider "openai-gpt-oss-20b" := rfl
  exact usage_complete_iff hlive (Option.some_get _).symm

end BatchEngine.Core
