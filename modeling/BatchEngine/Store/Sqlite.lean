import BatchEngine.Core.Models
import BatchEngine.Lib.JsonField

/-!
# Job records in SQLite

A record is stored as one JSON text under its job id. Writing an id that is there replaces
its text. A record whose text cannot be written, because of an integer with too many digits,
leaves the table as it is. The strings of a
record are taken without surrogate code points.
-/

set_option autoImplicit false

namespace BatchEngine.Store

open Py
open BatchEngine.Core (JobStatus)

/-! ## Records -/

section Records

variable (host : Host)

structure JobConfig where
  inputPath : String
  model : String
  maxTokens : ℤ
  concurrency : Option ℤ
  webhookUrl : Option String
  maxJobSpendUsd : host.Float
  maxItems : Option ℤ

structure JobCounts where
  ingested : ℤ
  succeeded : ℤ
  failed : ℤ
  inFlight : ℤ
  pending : ℤ

structure JobTiming where
  startedAt : host.Float
  finishedAt : Option host.Float

structure UsageTotals where
  inputTokens : ℤ
  outputTokens : ℤ
  estimatedCostUsd : host.Float

inductive BackpressureValue where
  | int (z : ℤ)
  | float (x : host.Float)
  | str (s : String)
  | bool (b : Bool)

structure JobRecord where
  jobId : String
  config : JobConfig host
  status : JobStatus
  submittedAt : host.Float
  counts : JobCounts
  timing : JobTiming host
  usage : UsageTotals host
  backpressure : PyDict (BackpressureValue host)
  errorsByClass : PyDict ℤ
  resultPath : String
  abortReason : Option String

end Records

variable {host : Host}

/-! ## The text of a record -/

def optionalStr : JsonField (Option String) := JsonField.str.optional rfl

def optionalInt : JsonField (Option ℤ) := JsonField.int.optional rfl

def optionalFloat (host : Host) : JsonField (Option host.Float) :=
  (JsonField.float host).optional rfl

def backpressureField (host : Host) : JsonField (BackpressureValue host) where
  write
    | .int z => JsonField.int.write z
    | .float x => (JsonField.float host).write x
    | .str s => JsonField.str.write s
    | .bool b => JsonField.bool.write b
  read
    | .int z => some (.int z)
    | .float x => ((JsonField.float host).read (.float x)).map .float
    | .str s => some (.str s)
    | .bool b => some (.bool b)
    | _ => none
  read_write
    | .int _ => rfl
    | .str _ => rfl
    | .bool _ => rfl
    | .float x => by
      have hread := (JsonField.float host).read_write x
      rw [show ((JsonField.float host).write x).toJson = .float x.1 from
        Host.floatAtom_toJson x.2] at hread ⊢
      exact congrArg (Option.map BackpressureValue.float) hread

def JobConfig.fields : List String :=
  ["input_path", "model", "max_tokens", "concurrency", "webhook_url", "max_job_spend_usd",
    "max_items"]

def JobConfig.asdict (config : JobConfig host) : List (String × Atom) :=
  [("input_path", JsonField.str.write config.inputPath),
    ("model", JsonField.str.write config.model),
    ("max_tokens", JsonField.int.write config.maxTokens),
    ("concurrency", optionalInt.write config.concurrency),
    ("webhook_url", optionalStr.write config.webhookUrl),
    ("max_job_spend_usd", (JsonField.float host).write config.maxJobSpendUsd),
    ("max_items", optionalInt.write config.maxItems)]

def JobCounts.fields : List String :=
  ["ingested", "succeeded", "failed", "in_flight", "pending"]

def JobCounts.asdict (counts : JobCounts) : List (String × Atom) :=
  [("ingested", JsonField.int.write counts.ingested),
    ("succeeded", JsonField.int.write counts.succeeded),
    ("failed", JsonField.int.write counts.failed),
    ("in_flight", JsonField.int.write counts.inFlight),
    ("pending", JsonField.int.write counts.pending)]

def JobTiming.fields : List String :=
  ["started_at", "finished_at"]

def JobTiming.asdict (timing : JobTiming host) : List (String × Atom) :=
  [("started_at", (JsonField.float host).write timing.startedAt),
    ("finished_at", (optionalFloat host).write timing.finishedAt)]

def UsageTotals.fields : List String :=
  ["input_tokens", "output_tokens", "estimated_cost_usd"]

def UsageTotals.asdict (usage : UsageTotals host) : List (String × Atom) :=
  [("input_tokens", JsonField.int.write usage.inputTokens),
    ("output_tokens", JsonField.int.write usage.outputTokens),
    ("estimated_cost_usd", (JsonField.float host).write usage.estimatedCostUsd)]

def payload (record : JobRecord host) : List (String × Nested) :=
  [("job_id", .leaf (JsonField.str.write record.jobId)),
    ("config", .flat record.config.asdict),
    ("status", .leaf (JsonField.str.write record.status.value)),
    ("submitted_at", .leaf ((JsonField.float host).write record.submittedAt)),
    ("counts", .flat record.counts.asdict),
    ("timing", .flat record.timing.asdict),
    ("usage", .flat record.usage.asdict),
    ("backpressure", (backpressureField host).writeDict record.backpressure),
    ("errors_by_class", JsonField.int.writeDict record.errorsByClass),
    ("result_path", .leaf (JsonField.str.write record.resultPath)),
    ("abort_reason", .leaf (optionalStr.write record.abortReason))]

def recordToJson (record : JobRecord host) : Except Exc (List Char) :=
  (Nested.node (payload record)).dumps

/-! ## The record of a text -/

/-- Why no record is read. The dataclasses take a value of any type; with one that is not of
the declared type the reading is not followed further. -/
inductive ReadError where
  | decode (exc : LoadError)
  | raised (exc : Exc)
  | undeclared
  deriving DecidableEq

def declared {α : Type} (f : JsonField α) (v : Json) : Except ReadError α :=
  match f.read v with
  | some a => .ok a
  | none => .error .undeclared

/-- `d[name]`. -/
def item (d : Json) (name : String) : Except ReadError Json :=
  (getKey name d).mapError .raised

/-- `**v`, for parameters of these names. -/
def keywords (names : List String) : Json → Except ReadError (List (String × Json))
  | .obj kvs => if kvs.all fun m => m.1 ∈ names then .ok kvs else .error (.raised .typeError)
  | _ => .error (.raised .typeError)

/-- The argument of a parameter without default. -/
def required (kvs : List (String × Json)) (name : String) : Except ReadError Json :=
  match lookup name kvs with
  | some v => .ok v
  | none => .error (.raised .typeError)

def withDefault (kvs : List (String × Json)) (name : String) (default : Json) : Json :=
  (lookup name kvs).getD default

def JobConfig.ofJson (host : Host) (v : Json) : Except ReadError (JobConfig host) := do
  let kvs ← keywords JobConfig.fields v
  return {
    inputPath := ← declared .str (← required kvs "input_path")
    model := ← declared .str (← required kvs "model")
    maxTokens := ← declared .int (← required kvs "max_tokens")
    concurrency := ← declared optionalInt (← required kvs "concurrency")
    webhookUrl := ← declared optionalStr (withDefault kvs "webhook_url" .null)
    maxJobSpendUsd :=
      ← declared (.float host) (withDefault kvs "max_job_spend_usd" (.float (.fin (1 / 4))))
    maxItems := ← declared optionalInt (withDefault kvs "max_items" .null) }

def JobCounts.ofJson (v : Json) : Except ReadError JobCounts := do
  let kvs ← keywords JobCounts.fields v
  return {
    ingested := ← declared .int (withDefault kvs "ingested" (.int 0))
    succeeded := ← declared .int (withDefault kvs "succeeded" (.int 0))
    failed := ← declared .int (withDefault kvs "failed" (.int 0))
    inFlight := ← declared .int (withDefault kvs "in_flight" (.int 0))
    pending := ← declared .int (withDefault kvs "pending" (.int 0)) }

/-- A record without a start starts now. -/
def JobTiming.ofJson (now : host.Float) (v : Json) : Except ReadError (JobTiming host) := do
  let kvs ← keywords JobTiming.fields v
  return {
    startedAt := ← declared (.float host) (withDefault kvs "started_at" (.float now.1))
    finishedAt := ← declared (optionalFloat host) (withDefault kvs "finished_at" .null) }

def UsageTotals.ofJson (host : Host) (v : Json) : Except ReadError (UsageTotals host) := do
  let kvs ← keywords UsageTotals.fields v
  return {
    inputTokens := ← declared .int (withDefault kvs "input_tokens" (.int 0))
    outputTokens := ← declared .int (withDefault kvs "output_tokens" (.int 0))
    estimatedCostUsd :=
      ← declared (.float host) (withDefault kvs "estimated_cost_usd" (.float (.fin 0))) }

/-- `JobStatus(v)`. -/
def statusOfJson : Json → Except ReadError JobStatus
  | .str "queued" => .ok .queued
  | .str "running" => .ok .running
  | .str "succeeded" => .ok .succeeded
  | .str "partial" => .ok .partialResult
  | .str "failed" => .ok .failed
  | .str "cancelled" => .ok .cancelled
  | _ => .error (.raised .valueError)

def declaredDict {α : Type} (f : JsonField α) (v : Json) : Except ReadError (PyDict α) :=
  match f.readDict v with
  | some d => .ok d
  | none => .error .undeclared

def recordOfJson (now : host.Float) (d : Json) : Except ReadError (JobRecord host) := do
  return {
    jobId := ← declared .str (← item d "job_id")
    config := ← JobConfig.ofJson host (← item d "config")
    status := ← statusOfJson (← item d "status")
    submittedAt := ← declared (.float host) (← item d "submitted_at")
    counts := ← JobCounts.ofJson (← item d "counts")
    timing := ← JobTiming.ofJson now (← item d "timing")
    usage := ← UsageTotals.ofJson host (← item d "usage")
    backpressure := ← declaredDict (backpressureField host) (← item d "backpressure")
    errorsByClass := ← declaredDict .int (← item d "errors_by_class")
    resultPath := ← declared .str (← item d "result_path")
    abortReason := ← declared optionalStr (← item d "abort_reason") }

def recordFromJson (now : host.Float) (raw : List Char) : Except ReadError (JobRecord host) :=
  match loads host.nesting raw with
  | .error exc => .error (.decode exc)
  | .ok d => recordOfJson now d

/-! ## The store -/

/-- The rows of the table `jobs`: ids, which are its primary key, with their texts. -/
structure SqliteJobStore where
  jobs : List (String × List Char) := []

namespace SqliteJobStore

/-- An id that is there gets the new text. -/
def save (store : SqliteJobStore) (record : JobRecord host) : Except Exc SqliteJobStore :=
  (recordToJson record).map fun data => { jobs := Dict.set store.jobs record.jobId data }

def create (store : SqliteJobStore) (record : JobRecord host) : Except Exc SqliteJobStore :=
  store.save record

def get (store : SqliteJobStore) (now : host.Float) (jobId : String) :
    Except ReadError (Option (JobRecord host)) :=
  match Dict.get? store.jobs jobId with
  | none => .ok none
  | some raw => (recordFromJson now raw).map some

def listIds (store : SqliteJobStore) : List String := store.jobs.map Prod.fst

end SqliteJobStore

/-- A call that writes. -/
inductive Call (host : Host) where
  | create (record : JobRecord host)
  | save (record : JobRecord host)

namespace Call

def record : Call host → JobRecord host
  | create record => record
  | save record => record

def run (store : SqliteJobStore) : Call host → Except Exc SqliteJobStore
  | create record => store.create record
  | save record => store.save record

end Call

/-- A call that raises has not committed anything. -/
def SqliteJobStore.onCall (store : SqliteJobStore) (call : Call host) : SqliteJobStore :=
  match call.run store with
  | .ok store => store
  | .error _ => store

/-- The store after these calls. -/
def after (calls : List (Call host)) : SqliteJobStore :=
  calls.foldl SqliteJobStore.onCall {}

/-! ## What was saved -/

/-- The record has a text. -/
def Storable (record : JobRecord host) : Prop := Nested.printableOf (payload record) = true

instance (record : JobRecord host) : Decidable (Storable record) :=
  inferInstanceAs (Decidable (_ = true))

/-- The records that were saved, the calls that raise left out. -/
def saved (calls : List (Call host)) : List (JobRecord host) :=
  (calls.map Call.record).filter fun record => Storable record

/-- The last of the records under an id. -/
def lastUnder (records : List (JobRecord host)) (jobId : String) : Option (JobRecord host) :=
  records.reverse.find? fun record => record.jobId = jobId

/-! ## What is written is read -/

@[simp] theorem declared_write {α : Type} (f : JsonField α) (a : α) :
    declared f (f.write a).toJson = .ok a := by
  rw [declared, f.read_write]

@[simp] theorem declaredDict_write {α : Type} (f : JsonField α) (d : PyDict α) :
    declaredDict f (f.writeDict d).toJson = .ok d := by
  rw [declaredDict, f.readDict_write]

theorem JobConfig.ofJson_asdict (config : JobConfig host) :
    JobConfig.ofJson host (Nested.flat config.asdict).toJson = .ok config := by
  have hkeys : (config.asdict.map Prod.fst).Nodup := by
    show fields.Nodup
    decide
  rw [Nested.toJson_flat hkeys]
  simp [JobConfig.ofJson, JobConfig.asdict, fields, keywords, required, withDefault, lookup,
    bind, Except.bind, pure, Except.pure]

theorem JobCounts.ofJson_asdict (counts : JobCounts) :
    JobCounts.ofJson (Nested.flat counts.asdict).toJson = .ok counts := by
  have hkeys : (counts.asdict.map Prod.fst).Nodup := by
    show fields.Nodup
    decide
  rw [Nested.toJson_flat hkeys]
  simp [JobCounts.ofJson, JobCounts.asdict, fields, keywords, withDefault, lookup, bind,
    Except.bind, pure, Except.pure]

theorem JobTiming.ofJson_asdict (now : host.Float) (timing : JobTiming host) :
    JobTiming.ofJson now (Nested.flat timing.asdict).toJson = .ok timing := by
  have hkeys : (timing.asdict.map Prod.fst).Nodup := by
    show fields.Nodup
    decide
  rw [Nested.toJson_flat hkeys]
  simp [JobTiming.ofJson, JobTiming.asdict, fields, keywords, withDefault, lookup, bind,
    Except.bind, pure, Except.pure]

theorem UsageTotals.ofJson_asdict (usage : UsageTotals host) :
    UsageTotals.ofJson host (Nested.flat usage.asdict).toJson = .ok usage := by
  have hkeys : (usage.asdict.map Prod.fst).Nodup := by
    show fields.Nodup
    decide
  rw [Nested.toJson_flat hkeys]
  simp [UsageTotals.ofJson, UsageTotals.asdict, fields, keywords, withDefault, lookup, bind,
    Except.bind, pure, Except.pure]

theorem statusOfJson_value (status : JobStatus) :
    statusOfJson (.str status.value) = .ok status := by
  cases status <;> rfl

theorem payload_nodup (record : JobRecord host) : ((payload record).map Prod.fst).Nodup := by
  show ["job_id", "config", "status", "submitted_at", "counts", "timing", "usage",
    "backpressure", "errors_by_class", "result_path", "abort_reason"].Nodup
  decide

theorem payload_depth (record : JobRecord host) : Nested.depthOf (payload record) = 1 := by
  simp [payload, Nested.depthOf, Nested.depth, JsonField.writeDict]

theorem recordOfJson_payload (now : host.Float) (record : JobRecord host) :
    recordOfJson now (Nested.node (payload record)).toJson = .ok record := by
  have hstatus : (JsonField.str.write record.status.value).toJson = .str record.status.value := rfl
  rw [toJson_node (payload_nodup record)]
  simp [recordOfJson, payload, Nested.jsonOf, Nested.toJson, item, getKey, lookup,
    JobConfig.ofJson_asdict, JobCounts.ofJson_asdict, JobTiming.ofJson_asdict,
    UsageTotals.ofJson_asdict, hstatus, statusOfJson_value, bind, Except.bind, pure, Except.pure,
    Except.mapError]

theorem recordToJson_storable {record : JobRecord host} (h : Storable record) :
    recordToJson record = .ok (Nested.node (payload record)).text := if_pos h

theorem recordFromJson_text (now : host.Float) {record : JobRecord host} (h : Storable record) :
    recordFromJson now (Nested.node (payload record)).text = .ok record := by
  have hdepth : Nested.depthOf (payload record) < host.nesting := by
    rw [payload_depth]
    exact host.two_le_nesting
  rw [recordFromJson, loads_nested h hdepth]
  exact recordOfJson_payload now record

/-! ## Sequences of calls -/

/-- The table holds for each id the last of these records. -/
structure Holds (store : SqliteJobStore) (records : List (JobRecord host)) : Prop where
  storable : ∀ record ∈ records, Storable record
  reads : ∀ jobId, Dict.get? store.jobs jobId =
    (lastUnder records jobId).map fun record => (Nested.node (payload record)).text
  nodup : store.listIds.Nodup
  ids : ∀ jobId, jobId ∈ store.listIds ↔ ∃ record ∈ records, record.jobId = jobId

theorem lastUnder_snoc (records : List (JobRecord host)) (record : JobRecord host)
    (jobId : String) : lastUnder (records ++ [record]) jobId =
      if record.jobId = jobId then some record else lastUnder records jobId := by
  rw [lastUnder, List.reverse_append, List.reverse_singleton, List.singleton_append,
    List.find?_cons]
  by_cases hid : record.jobId = jobId
  · simp [hid]
  · simp [hid, lastUnder]

theorem run_eq (store : SqliteJobStore) (call : Call host) :
    call.run store = store.save call.record := by
  cases call <;> rfl

/-- Exactly the records without a text are refused. -/
theorem run_returns_iff (store : SqliteJobStore) (call : Call host) :
    (∃ store', call.run store = .ok store') ↔ Storable call.record := by
  rw [run_eq, SqliteJobStore.save]
  constructor
  · rintro ⟨store', hrun⟩
    by_contra hnot
    rw [show recordToJson call.record = .error .valueError from if_neg hnot] at hrun
    cases hrun
  · intro hstorable
    rw [recordToJson_storable hstorable]
    exact ⟨_, rfl⟩

theorem Holds.save {store : SqliteJobStore} {records : List (JobRecord host)}
    (h : Holds store records) {record : JobRecord host} (hstorable : Storable record) :
    Holds { jobs := Dict.set store.jobs record.jobId (Nested.node (payload record)).text }
      (records ++ [record]) where
  storable := by
    intro r hr
    rcases List.mem_append.mp hr with hr | hr
    · exact h.storable r hr
    · exact List.mem_singleton.mp hr ▸ hstorable
  reads jobId := by
    rw [Dict.get?_set, lastUnder_snoc, h.reads]
    split <;> rfl
  nodup := Dict.nodup_set h.nodup _ _
  ids jobId := by
    have hids := h.ids jobId
    simp only [SqliteJobStore.listIds] at hids ⊢
    rw [Dict.mem_keys_set_iff, hids]
    simp only [List.mem_append, List.mem_singleton, or_and_right, exists_or, exists_eq_left]
    rw [eq_comm]

theorem onCall_holds {store : SqliteJobStore} {records : List (JobRecord host)}
    (h : Holds store records) (call : Call host) :
    Holds (store.onCall call) (records ++ saved [call]) := by
  rw [SqliteJobStore.onCall, run_eq, SqliteJobStore.save]
  by_cases hstorable : Storable call.record
  · have hsaved : saved [call] = [call.record] := by
      simp [saved, hstorable]
    rw [hsaved, recordToJson_storable hstorable]
    exact h.save hstorable
  · have hsaved : saved [call] = [] := by
      simp [saved, hstorable]
    have hraises : recordToJson call.record = .error .valueError := if_neg hstorable
    rw [hsaved, hraises, List.append_nil]
    exact h

theorem after_holds (calls : List (Call host)) : Holds (after calls) (saved calls) := by
  induction calls using List.reverseRecOn with
  | nil =>
    exact ⟨fun _ h => absurd h List.not_mem_nil, fun _ => rfl, List.nodup_nil, fun jobId => by
      simp [SqliteJobStore.listIds, after, saved]⟩
  | append_singleton calls call ih =>
    have hsplit : saved (calls ++ [call]) = saved calls ++ saved [call] := by
      rw [saved, List.map_append, List.filter_append]
      rfl
    rw [hsplit, after, List.foldl_append]
    exact onCall_holds ih call

theorem mem_of_lastUnder {records : List (JobRecord host)} {jobId : String}
    {record : JobRecord host} (h : lastUnder records jobId = some record) : record ∈ records :=
  List.mem_reverse.mp (List.mem_of_find?_eq_some h)

/-- After any calls, an id reads back the last record that was saved under it, and the listed
ids are those of the saved records. -/
theorem records_survive (calls : List (Call host)) (now : host.Float) (jobId : String) :
    (after calls).get now jobId = .ok (lastUnder (saved calls) jobId) ∧
      (after calls).listIds.Nodup ∧
      (jobId ∈ (after calls).listIds ↔ ∃ record ∈ saved calls, record.jobId = jobId) := by
  have h := after_holds calls
  refine ⟨?_, h.nodup, h.ids jobId⟩
  rw [SqliteJobStore.get, h.reads]
  cases hlast : lastUnder (saved calls) jobId with
  | none => rfl
  | some record =>
    have hstorable := h.storable record (mem_of_lastUnder hlast)
    simp only [Option.map_some, recordFromJson_text now hstorable]
    rfl

end BatchEngine.Store
