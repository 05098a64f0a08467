import Mathlib.Data.List.Dedup
import JAgent.Core.Status
import JAgent.Storage.Scoped

/-! # Rows and the runs they make up

The queries of the store see a row by its columns, the fold sees what `parse_event_payload` makes of the
payload.  A `ParsedRow` is a row with both, which agree on the type and the phase.  The rows of one id,
by sequence number, are the stream that is folded; `list_runs` gives the ids with a row that is neither
conversation-level nor audit. -/

namespace JAgent

/-- The phase of a payload. -/
def Payload.phase : Payload → Option String
  | .runStarted _ | .stepStarted .. => some "started"
  | .runPaused _ => some "paused"
  | .runResumed _ => some "resumed"
  | .runCompleted _ | .planCompleted .. | .stepCompleted .. | .toolCompleted _ => some "completed"
  | .runFailed _ | .planFailed .. | .stepFailed .. | .toolFailed .. => some "failed"
  | .runOrphaned _ => some "orphaned"
  | .planCreated .. => some "created"
  | .planRevised .. => some "revised"
  | .stepSkipped .. => some "skipped"
  | .toolCalled _ => some "called"
  | .toolTimeout .. => some "timeout"
  | .guardrailTriggered .. => some "blocked"
  | .outputBlobStored _ => some "output_stored"
  | .confirmationRequested _ => some "requested"
  | .confirmationReceived _ => some "received"
  | .contextCheckpointed .. => some "checkpointed"
  | .episodeArchived .. => some "archived"
  | .contextPruned .. => some "pruned"
  | .stepRepair ph | .diagnostic ph | .conversation ph | .workspace ph => some ph
  | .agentThought .. | .feedbackInjected _ | .deliveryContractsResolved .. => none

/-- `json_extract(payload, '$.phase')`. -/
def LogRow.phase (row : LogRow) : Option String := (row.payload.get? "phase").bind Value.asStr?

/-- A row with what `parse_event_payload` makes of its payload. -/
structure ParsedRow extends LogRow where
  parsed : Payload
  eventType_eq : eventType = parsed.eventType
  phase_eq : toLogRow.phase = parsed.phase

/-- The rows as the tables hold them. -/
def tablesOf (rows : List ParsedRow) : TenantDb := { events := rows.map (·.toLogRow) }

/-- The runs `list_runs` gives without a limit. -/
def listedIds (rows : List ParsedRow) : List String :=
  ((tablesOf rows).listRuns (-1) 0 none none).map (·.runId)

/-- The rows of a stream, by sequence number. -/
def runRowsOf (rows : List ParsedRow) (runId : String) : List ParsedRow :=
  (rows.filter fun row => row.runId = runId).mergeSort (·.seq ≤ ·.seq)

/-- The payloads of a stream. -/
def runLog (rows : List ParsedRow) (runId : String) : List Payload := (runRowsOf rows runId).map (·.parsed)

/-- The status of the folded events of a run; `none` when the fold raises. -/
def foldedStatus [Py] (rows : List ParsedRow) (runId : String) : Option RunStatus :=
  (foldEvents ((runRowsOf rows runId).map fun row => ⟨row.runId, row.seq, row.parsed⟩)).toOption.map
    (·.status)

section rows
variable {rows : List ParsedRow} {r : String}

theorem runRowsOf_perm : (runRowsOf rows r).Perm (rows.filter fun row => row.runId = r) :=
  List.mergeSort_perm _ _

theorem mem_runRowsOf {row : ParsedRow} : row ∈ runRowsOf rows r ↔ row ∈ rows ∧ row.runId = r := by
  rw [runRowsOf_perm.mem_iff, List.mem_filter, decide_eq_true_eq]

/-! ### The listed runs -/

theorem listedIds_perm :
    (listedIds rows).Perm (TenantDb.runIds ((tablesOf rows).runRows none none)) := by
  generalize hrun : (tablesOf rows).runRows none none = run
  have hlist : listedIds rows = (((TenantDb.runIds run).map (TenantDb.summarize run)).mergeSort
      fun a b => decide (b.updatedAt ≤ a.updatedAt)).map (·.runId) := by
    rw [listedIds, TenantDb.listRuns, hrun]
    rfl
  have hids : ((TenantDb.runIds run).map (TenantDb.summarize run)).map (·.runId) = TenantDb.runIds run := by
    rw [List.map_map]
    exact List.map_id _
  have hperm := (List.mergeSort_perm ((TenantDb.runIds run).map (TenantDb.summarize run))
    fun a b => decide (b.updatedAt ≤ a.updatedAt)).map (·.runId)
  rw [hids] at hperm
  rw [hlist]
  exact hperm

theorem nodup_listedIds : (listedIds rows).Nodup :=
  listedIds_perm.nodup_iff.mpr (List.nodup_dedup _)

/-- A listed run has a row. -/
theorem exists_row_of_listed (h : r ∈ listedIds rows) : ∃ row ∈ rows, row.runId = r := by
  rw [listedIds_perm.mem_iff, TenantDb.runIds, List.mem_dedup, List.mem_map] at h
  obtain ⟨lr, hlr, rfl⟩ := h
  obtain ⟨row, hrow, rfl⟩ := List.mem_map.mp (List.mem_of_mem_filter hlr)
  exact ⟨row, hrow, rfl⟩

variable [Py]

theorem statusOf_of_foldedStatus {st : RunStatus} (h : foldedStatus rows r = some st) :
    statusOf (runLog rows r) = st := by
  rw [foldedStatus, Option.map_eq_some_iff] at h
  obtain ⟨state, hfold, rfl⟩ := h
  cases hevents : (runRowsOf rows r).map fun row => (⟨row.runId, row.seq, row.parsed⟩ : LogEvent) with
  | nil =>
      rw [hevents] at hfold
      cases hfold
  | cons e es =>
      rw [hevents] at hfold
      cases hok : foldFrom e.runId { runId := e.runId } (e :: es) with
      | error err =>
          rw [foldEvents, hok] at hfold
          cases hfold
      | ok state' =>
          rw [foldEvents, hok] at hfold
          obtain rfl := Option.some.inj hfold
          have hlog : (e :: es).map (·.payload) = runLog rows r := by
            rw [← hevents, List.map_map]
            rfl
          rw [foldFrom_status_of_events hok, hlog]
          rfl

end rows

end JAgent
