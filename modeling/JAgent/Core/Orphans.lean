import JAgent.Core.WorkingView
import JAgent.Storage.ParsedRows

/-! # The orphan sweep

When the server starts, the runs that have not ended have lost the process that drove them.
`mark_orphans` goes over all runs, folds each one, and appends two events to each run that has not ended:
a flag and a failure, under the tenant that the run's own events have.  The two appends carry keys, so a
sweep that was cut short is finished by the next one.

What a sweep adds, cut short or not, is of one kind (`Added`): flags and failures of runs that had not
ended, under the derived tenant.  The fold of a run looks at the failure alone (`foldedStatus_extends`).
This carries over to any number of sweeps, and the claim about them is `orphan_sweep_converges_iff`: the
sweeps end every run exactly when every run can be folded, and a run that has not ended has a tenant that
is not empty and no event yet under the key of the failure. -/

namespace JAgent

/-! ### The store -/

/-- A store that was written through `append_event`, with the caches of the process: the rows of a run are
numbered in the order in which they were appended. -/
structure EventLog where
  rows : List ParsedRow
  runToConv : Lib.Dict String String
  runToWorkspace : Lib.Dict String String
  ordered : rows.Pairwise fun a b => a.runId = b.runId → a.seq < b.seq

/-- What `append_event` is called with, and what its payload parses as. -/
structure ParsedDraft extends EventDraft where
  parsed : Payload
  eventType_eq : eventType = parsed.eventType
  phase_eq : (payload.get? "phase").bind Value.asStr? = parsed.phase

namespace EventLog
variable (log : EventLog)

/-- The tables and caches of the raw store. -/
def toTenantDb : TenantDb :=
  { tablesOf log.rows with runToConv := log.runToConv, runToWorkspace := log.runToWorkspace }

/-- The row that is inserted. -/
def rowFor (d : ParsedDraft) (now : ℕ) : ParsedRow where
  toLogRow := log.toTenantDb.rowFor d.toEventDraft now
  parsed := d.parsed
  eventType_eq := d.eventType_eq
  phase_eq := d.phase_eq

theorem le_max?_of_mem {l : List ℕ} {n : ℕ} (h : n ∈ l) : n ≤ l.max?.getD 0 := by
  cases hmax : l.max? with
  | none =>
      rw [List.max?_eq_none_iff] at hmax
      rw [hmax] at h
      cases h
  | some m => exact (List.max?_eq_some_iff.mp hmax).2 n h

theorem seq_lt_rowFor {d : ParsedDraft} {now : ℕ} {row : ParsedRow} (h : row ∈ log.rows)
    (hrun : row.runId = d.runId) : row.seq < (log.rowFor d now).seq := by
  have hmem : row.seq ∈ (log.toTenantDb.tables.rowsOf d.runId).map (·.seq) := by
    refine List.mem_map.mpr ⟨row.toEventRow, List.mem_filter.mpr ⟨?_, decide_eq_true hrun⟩, rfl⟩
    exact List.mem_map.mpr ⟨row.toLogRow, List.mem_map_of_mem h, rfl⟩
  exact Nat.lt_succ_of_le (le_max?_of_mem hmem)

theorem ordered_append (d : ParsedDraft) (now : ℕ) :
    (log.rows ++ [log.rowFor d now]).Pairwise fun a b => a.runId = b.runId → a.seq < b.seq := by
  rw [List.pairwise_append]
  refine ⟨log.ordered, List.pairwise_singleton _ _, fun a ha b hb hrun => ?_⟩
  obtain rfl := List.mem_singleton.mp hb
  exact log.seq_lt_rowFor ha hrun

/-- An event of this run and type has the key. -/
def hasKey (runId : String) (t : EventType) (key : String) : Bool :=
  log.rows.any fun row => row.toEventRow.hasKey runId t key

/-- `append_event`. -/
def append (d : ParsedDraft) (now : ℕ) : EventLog :=
  if d.idempotencyKey.any (log.hasKey d.runId d.eventType) then log
  else
    { rows := log.rows ++ [log.rowFor d now]
      runToConv := (log.toTenantDb.cacheColumns (log.rowFor d now).toLogRow).runToConv
      runToWorkspace := (log.toTenantDb.cacheColumns (log.rowFor d now).toLogRow).runToWorkspace
      ordered := log.ordered_append d now }

theorem isSome_findByIdempotencyKey (runId : String) (t : EventType) (key : String) :
    (log.toTenantDb.findByIdempotencyKey runId t key).isSome = log.hasKey runId t key := by
  rw [TenantDb.findByIdempotencyKey, Option.isSome_map, Bool.eq_iff_iff, List.find?_isSome, hasKey,
    List.any_eq_true]
  constructor
  · rintro ⟨lr, hlr, hkey⟩
    obtain ⟨row, hrow, rfl⟩ := List.mem_map.mp hlr
    exact ⟨row, hrow, hkey⟩
  · rintro ⟨row, hrow, hkey⟩
    exact ⟨row.toLogRow, List.mem_map_of_mem hrow, hkey⟩

/-- **An append is the append of the raw store.** -/
theorem toTenantDb_append (d : ParsedDraft) (now : ℕ) :
    (log.append d now).toTenantDb = (log.toTenantDb.appendEvent d.toEventDraft now).1 := by
  have hnew : ({ tablesOf (log.rows ++ [log.rowFor d now]) with
      runToConv := (log.toTenantDb.cacheColumns (log.rowFor d now).toLogRow).runToConv
      runToWorkspace := (log.toTenantDb.cacheColumns (log.rowFor d now).toLogRow).runToWorkspace } :
        TenantDb) =
      { log.toTenantDb.cacheColumns (log.toTenantDb.rowFor d.toEventDraft now) with
        events := log.toTenantDb.events ++ [log.toTenantDb.rowFor d.toEventDraft now] } := by
    rw [tablesOf, List.map_append]
    rfl
  rw [append, TenantDb.appendEvent]
  cases hkey : d.idempotencyKey with
  | none => exact hnew
  | some k =>
      have hhas := log.isSome_findByIdempotencyKey d.runId d.eventType k
      rw [Option.bind_some, Option.any_some]
      cases hfind : log.toTenantDb.findByIdempotencyKey d.runId d.eventType k with
      | none =>
          rw [hfind] at hhas
          rw [← hhas]
          exact hnew
      | some e =>
          rw [hfind] at hhas
          rw [← hhas]
          rfl

/-- The events of a run are its rows in the order in which they were appended. -/
theorem runRowsOf_eq (r : String) : runRowsOf log.rows r = log.rows.filter fun row => row.runId = r := by
  apply List.mergeSort_of_pairwise
  refine (List.pairwise_filter.mpr (log.ordered.imp ?_))
  intro a b hab ha hb
  have hrun : a.runId = b.runId := by rw [of_decide_eq_true ha, of_decide_eq_true hb]
  exact decide_eq_true (hab hrun).le

end EventLog

/-! ### The sweep -/

/-- `counts[t] = counts.get(t, 0) + 1` for each tenant. -/
def tenantCounts (tenants : List String) : Lib.Dict String ℕ :=
  tenants.foldl (fun counts t => counts.set t ((counts.get? t).getD 0 + 1)) .empty

/-- `max(counts, key=…)`: the first key with the greatest count. -/
def majority : List (String × ℕ) → Option String
  | [] => none
  | p :: ps => some (ps.foldl (fun best q => if best.2 < q.2 then q else best) p).1

/-- `_derive_run_tenant`. -/
def deriveRunTenant (events : List ParsedRow) : String :=
  let tenants := (events.map (·.tenantId)).filter (· ≠ "")
  (majority (tenantCounts tenants).items).getD "default"

/-- `orphan_detect_<run id>` and `orphan_fail_<run id>`. -/
def detectKey (runId : String) : String := "orphan_detect_" ++ runId

def failKey (runId : String) : String := "orphan_fail_" ++ runId

/-- `next((e.workspace_id for e in events if e.workspace_id), None)`. -/
def firstWorkspace (events : List ParsedRow) : Option String :=
  events.findSome? fun e => nonEmpty e.workspaceId

/-- The flag. -/
def orphanedDraft (runId : String) (events : List ParsedRow) (now : ℕ) : ParsedDraft where
  runId := runId
  eventType := .run
  payload := [("phase", .str "orphaned"), ("reason", .str "server_restart"),
    ("detected_at", .float (.ofInt now))]
  tenantId := deriveRunTenant events
  workspaceId := firstWorkspace events
  idempotencyKey := some (detectKey runId)
  parsed := .runOrphaned "server_restart"
  eventType_eq := rfl
  phase_eq := rfl

/-- The texts of the failure. -/
def orphanError : String :=
  "Run was terminated because the server process restarted while it was active " ++
    "(orphaned run). Automatic crash recovery is not performed; please re-submit " ++
    "the task — completed steps are not repeated (event sourcing + idempotency)."

def orphanSummary : String := "任务因服务重启而中断（孤儿 run），请重新发起任务。"

def orphanMessage : String := "任务因服务重启而中断，请重新发起该任务；已完成的步骤不会重复执行。"

/-- The failure. -/
def failedDraft (runId : String) (events : List ParsedRow) : ParsedDraft where
  runId := runId
  eventType := .run
  payload := [("phase", .str "failed"), ("final_error", .str orphanError),
    ("event_count", .int (events.length + 2)), ("result_summary", .str orphanSummary),
    ("user_facing_message", .str orphanMessage)]
  tenantId := deriveRunTenant events
  workspaceId := firstWorkspace events
  idempotencyKey := some (failKey runId)
  parsed := .runFailed
    { finalError := orphanError, eventCount := events.length + 2, resultSummary := some orphanSummary
      userFacingMessage := orphanMessage }
  eventType_eq := rfl
  phase_eq := rfl

/-- What the sweep does with a run. -/
inductive Verdict where
  | skips
  | raises
  | terminates (orphaned failed : ParsedDraft)

section sweep
variable [Py] (now : ℕ)

/-- The body of the loop up to the appends. -/
def verdict (log : EventLog) (runId : String) : Verdict :=
  let events := runRowsOf log.rows runId
  if events.isEmpty then .skips
  else match foldedStatus log.rows runId with
    | none => .raises
    | some st =>
        if st.isTerminal then .skips
        else .terminates (orphanedDraft runId events now) (failedDraft runId events)

/-- `mark_orphans` over the ids that `list_all_run_ids` gave: the store, and the number of runs it
terminated; `none` when it raises. -/
def markOrphans : List String → EventLog → EventLog × Option ℕ
  | [], log => (log, some 0)
  | r :: ids, log => match verdict now log r with
    | .skips => markOrphans ids log
    | .raises => (log, none)
    | .terminates orphaned failed =>
        let rest := markOrphans ids ((log.append orphaned now).append failed now)
        (rest.1, rest.2.map (· + 1))

/-- The store when the process dies after `n` appends of the sweep. -/
def crashAfter : ℕ → List String → EventLog → EventLog
  | _, [], log => log
  | n, r :: ids, log => match verdict now log r with
    | .skips => crashAfter n ids log
    | .raises => log
    | .terminates orphaned failed => match n with
      | 0 => log
      | 1 => log.append orphaned now
      | n + 2 => crashAfter n ids ((log.append orphaned now).append failed now)

end sweep

/-! ### The derived tenant -/

theorem keys_tenantCounts (tenants : List String) : ∀ t, t ∈ (tenantCounts tenants).keys ↔ t ∈ tenants := by
  have hfold : ∀ (ts : List String) (counts : Lib.Dict String ℕ) (t : String),
      t ∈ (ts.foldl (fun counts t => counts.set t ((counts.get? t).getD 0 + 1)) counts).keys ↔
        t ∈ counts.keys ∨ t ∈ ts := by
    intro ts
    induction ts with
    | nil =>
        intro counts t
        simp
    | cons u ts ih =>
        intro counts t
        rw [List.foldl_cons, ih, Lib.Dict.mem_keys_set, List.mem_cons]
        tauto
  intro t
  rw [tenantCounts, hfold]
  simp [Lib.Dict.empty, Lib.Dict.keys]

theorem majority_mem {ps : List (String × ℕ)} {t : String} (h : majority ps = some t) :
    t ∈ ps.map Prod.fst := by
  have hfold : ∀ (qs : List (String × ℕ)) (p : String × ℕ),
      qs.foldl (fun best q => if best.2 < q.2 then q else best) p ∈ p :: qs := by
    intro qs
    induction qs with
    | nil =>
        intro p
        exact List.mem_singleton_self p
    | cons q qs ih =>
        intro p
        rw [List.foldl_cons]
        have hmem := ih (if p.2 < q.2 then q else p)
        split_ifs at hmem ⊢
        · exact List.mem_cons_of_mem _ hmem
        · obtain hp | hqs := List.mem_cons.mp hmem
          · rw [hp]
            exact List.mem_cons_self
          · exact List.mem_cons_of_mem _ (List.mem_cons_of_mem _ hqs)
  cases ps with
  | nil => cases h
  | cons p ps =>
      obtain rfl := Option.some.inj h
      exact List.mem_map_of_mem (hfold ps p)

/-- The derived tenant is one that an event names, or the default one when none does. -/
theorem deriveRunTenant_cases (events : List ParsedRow) :
    (∃ e ∈ events, e.tenantId ≠ "" ∧ deriveRunTenant events = e.tenantId) ∨
      (∀ e ∈ events, e.tenantId = "") ∧ deriveRunTenant events = "default" := by
  rw [deriveRunTenant]
  cases hmax : majority (tenantCounts ((events.map (·.tenantId)).filter (· ≠ ""))).items with
  | some t =>
      have hkey := (keys_tenantCounts _ t).mp (majority_mem hmax)
      obtain ⟨hmem, hne⟩ := List.mem_filter.mp hkey
      obtain ⟨e, he, rfl⟩ := List.mem_map.mp hmem
      exact .inl ⟨e, he, of_decide_eq_true hne, rfl⟩
  | none =>
      refine .inr ⟨fun e he => ?_, rfl⟩
      by_contra hne
      have hmem : e.tenantId ∈ (tenantCounts ((events.map (·.tenantId)).filter (· ≠ ""))).keys :=
        (keys_tenantCounts _ _).mpr (List.mem_filter.mpr ⟨List.mem_map_of_mem he, decide_eq_true hne⟩)
      cases hitems : (tenantCounts ((events.map (·.tenantId)).filter (· ≠ ""))).items with
      | nil =>
          rw [Lib.Dict.keys, hitems] at hmem
          cases hmem
      | cons p ps =>
          rw [hitems] at hmax
          cases hmax

/-- Events under the derived tenant do not change it. -/
theorem deriveRunTenant_append {events added : List ParsedRow} {t : String}
    (hone : ∀ e ∈ events, e.tenantId = t)
    (hadded : ∀ e ∈ added, e.tenantId = deriveRunTenant events) :
    deriveRunTenant (events ++ added) = deriveRunTenant events := by
  obtain ⟨e, he, hne, hd⟩ | ⟨hempty, hd⟩ := deriveRunTenant_cases events
  · have hall : ∀ x ∈ events ++ added, x.tenantId = e.tenantId := by
      intro x hx
      obtain hx | hx := List.mem_append.mp hx
      · rw [hone x hx, hone e he]
      · rw [hadded x hx, hd]
    obtain ⟨x, hx, -, hx'⟩ | ⟨hnone, -⟩ := deriveRunTenant_cases (events ++ added)
    · rw [hx', hall x hx, hd]
    · exact absurd (hnone e (List.mem_append_left _ he)) hne
  · obtain ⟨x, hx, hne, hx'⟩ | ⟨-, hd'⟩ := deriveRunTenant_cases (events ++ added)
    · obtain hx | hx := List.mem_append.mp hx
      · exact absurd (hempty x hx) hne
      · rw [hx', hadded x hx]
    · rw [hd', hd]

/-! ### The fold of a stream with a flag or a failure more -/

/-- The event flags or fails a run. -/
def Payload.stopsRun : Payload → Bool
  | .runOrphaned _ | .runFailed _ => true
  | _ => false

/-- The event fails a run. -/
def Payload.failsRun : Payload → Bool
  | .runFailed _ => true
  | _ => false

section fold
variable [Py]

/-- A flag or a failure never makes the fold raise. -/
theorem foldFrom_stops {r : String} {es : List LogEvent}
    (hes : ∀ e ∈ es, e.runId = r ∧ e.payload.stopsRun = true) (st : RunState) :
    ∃ st', foldFrom r st es = .ok st' := by
  induction es generalizing st with
  | nil => exact ⟨st, rfl⟩
  | cons e es ih =>
      rw [List.forall_mem_cons] at hes
      obtain ⟨⟨hrun, hstops⟩, hes⟩ := hes
      have hone : ∃ st₁, foldEvent r st e = .ok st₁ := by
        rw [foldEvent, if_neg (not_not.mpr hrun)]
        cases hp : e.payload <;> rw [hp] at hstops <;> first | exact ⟨_, rfl⟩ | cases hstops
      obtain ⟨st₁, hst₁⟩ := hone
      rw [foldFrom, hst₁]
      exact ih hes st₁

omit [Py] in
theorem foldl_statusAfter_stops {log : List Payload} (h : ∀ p ∈ log, p.stopsRun = true) (st : RunStatus) :
    log.foldl statusAfter st = if log.any Payload.failsRun then .failed else st := by
  induction log generalizing st with
  | nil => rfl
  | cons p log ih =>
      rw [List.forall_mem_cons] at h
      rw [List.foldl_cons, ih h.2, List.any_cons]
      cases p with
      | runOrphaned reason => rfl
      | runFailed p =>
          show (if _ then RunStatus.failed else RunStatus.failed) = _
          rw [ite_self]
          rfl
      | _ => cases h.1

/-- **The failure alone moves the status.** -/
theorem status_foldEvents_append {e : LogEvent} {es es' : List LogEvent}
    (hes' : ∀ x ∈ es', x.runId = e.runId ∧ x.payload.stopsRun = true) :
    (foldEvents (e :: es ++ es')).toOption.map (·.status) =
      ((foldEvents (e :: es)).toOption.map (·.status)).map fun st =>
        if es'.any (·.payload.failsRun) then .failed else st := by
  rw [List.cons_append, foldEvents, foldEvents, ← List.cons_append, foldFrom_append]
  cases hfold : foldFrom e.runId { runId := e.runId } (e :: es) with
  | error err => rfl
  | ok st =>
      obtain ⟨st', hst'⟩ := foldFrom_stops hes' st
      show (foldFrom e.runId st es').toOption.map (·.status) = _
      rw [hst']
      have hstatus := foldFrom_status_of_events hst'
      rw [foldl_statusAfter_stops (by
        intro p hp
        obtain ⟨x, hx, rfl⟩ := List.mem_map.mp hp
        exact (hes' x hx).2), List.any_map] at hstatus
      show some st'.status = some _
      rw [hstatus]
      rfl

end fold

/-! ### What sweeps add -/

section added
variable [Py] {log log' : EventLog} {added : List ParsedRow} {r : String}

/-- The run has not ended. -/
def Active (log : EventLog) (r : String) : Prop :=
  ∃ st, foldedStatus log.rows r = some st ∧ st.isTerminal = false

/-- The run has ended: its events fold to COMPLETED or FAILED. -/
def Ended (log : EventLog) (r : String) : Prop :=
  foldedStatus log.rows r = some .completed ∨ foldedStatus log.rows r = some .failed

theorem ended_iff : Ended log r ↔ ∃ st, foldedStatus log.rows r = some st ∧ st.isTerminal = true := by
  constructor
  · rintro (h | h)
    · exact ⟨_, h, rfl⟩
    · exact ⟨_, h, rfl⟩
  · rintro ⟨st, h, hst⟩
    cases st with
    | completed => exact .inl h
    | failed => exact .inr h
    | running | paused => cases hst

theorem not_active_of_ended (h : Ended log r) : ¬Active log r := by
  rintro ⟨st, hst, hactive⟩
  obtain ⟨st', hst', hend⟩ := ended_iff.mp h
  rw [hst, Option.some.injEq] at hst'
  rw [hst', hend] at hactive
  cases hactive

/-- A row that a sweep of the store adds: the flag or the failure of a listed run that had not ended. -/
structure Added (log : EventLog) (row : ParsedRow) : Prop where
  listed : row.runId ∈ listedIds log.rows
  active : Active log row.runId
  tenant : row.tenantId = deriveRunTenant (runRowsOf log.rows row.runId)
  stops : row.parsed.stopsRun = true
  key : row.idempotencyKey = some (if row.parsed.failsRun then failKey row.runId else detectKey row.runId)
  fresh : row.parsed.failsRun = true → log.hasKey row.runId .run (failKey row.runId) = false

/-- The store after some appends of sweeps. -/
structure Extends (log log' : EventLog) (added : List ParsedRow) : Prop where
  rows : log'.rows = log.rows ++ added
  all : ∀ row ∈ added, Added log row

theorem Extends.refl (log : EventLog) : Extends log log [] :=
  ⟨(List.append_nil _).symm, fun _ h => absurd h List.not_mem_nil⟩

/-- Only the rows matter. -/
theorem Extends.of_rows {log'' : EventLog} (h : Extends log log' added) (hrows : log''.rows = log'.rows) :
    Extends log log'' added := ⟨hrows.trans h.rows, h.all⟩

theorem Extends.runRows (h : Extends log log' added) (r : String) :
    runRowsOf log'.rows r = runRowsOf log.rows r ++ added.filter fun row => row.runId = r := by
  rw [log'.runRowsOf_eq, log.runRowsOf_eq, h.rows, List.filter_append]

omit [Py] in
theorem runRowsOf_ne_nil (h : r ∈ listedIds log.rows) : runRowsOf log.rows r ≠ [] := by
  obtain ⟨row, hrow, hrun⟩ := exists_row_of_listed h
  exact List.ne_nil_of_mem (mem_runRowsOf.mpr ⟨hrow, hrun⟩)

/-- **What the sweeps make of the status of a run.** -/
theorem foldedStatus_extends (h : Extends log log' added) (r : String) :
    foldedStatus log'.rows r = (foldedStatus log.rows r).map fun st =>
      if added.any fun row => row.runId = r && row.parsed.failsRun then .failed else st := by
  have hany : (added.filter fun row => row.runId = r).any (·.parsed.failsRun) =
      added.any fun row => row.runId = r && row.parsed.failsRun := by rw [List.any_filter]
  rw [foldedStatus, foldedStatus, h.runRows]
  cases hrows : runRowsOf log.rows r with
  | nil =>
      -- no row of this run is added: it is not listed
      have hnone : (added.filter fun row => row.runId = r) = [] := by
        rw [List.filter_eq_nil_iff]
        intro row hrow hrun
        have hlisted := (h.all row hrow).listed
        rw [of_decide_eq_true hrun] at hlisted
        exact runRowsOf_ne_nil hlisted hrows
      rw [hnone]
      rfl
  | cons row rest =>
      have hrun : row.runId = r := (mem_runRowsOf.mp (hrows ▸ List.mem_cons_self)).2
      rw [List.map_append, List.map_cons, status_foldEvents_append, List.any_map, ← hany]
      · rfl
      · intro e he
        obtain ⟨x, hx, rfl⟩ := List.mem_map.mp he
        obtain ⟨hx, hxr⟩ := List.mem_filter.mp hx
        exact ⟨(of_decide_eq_true hxr).trans hrun.symm, (h.all x hx).stops⟩

/-- A run ends with the first failure that is added. -/
theorem Extends.ended_iff (h : Extends log log' added) : Ended log' r ↔
    Ended log r ∨ Active log r ∧ ∃ row ∈ added, row.runId = r ∧ row.parsed.failsRun = true := by
  have hstatus := foldedStatus_extends h r
  have hany : (added.any fun row => row.runId = r && row.parsed.failsRun) = true ↔
      ∃ row ∈ added, row.runId = r ∧ row.parsed.failsRun = true := by
    simp only [List.any_eq_true, Bool.and_eq_true, decide_eq_true_eq]
  rw [JAgent.ended_iff, hstatus, ← hany, JAgent.ended_iff, Active]
  cases foldedStatus log.rows r with
  | none => simp
  | some st =>
      cases (added.any fun row => row.runId = r && row.parsed.failsRun) <;> cases st <;>
        simp [RunStatus.isTerminal]

theorem Extends.active_of (h : Extends log log' added) (hactive : Active log' r) : Active log r := by
  obtain ⟨st, hst, hterm⟩ := hactive
  rw [foldedStatus_extends h, Option.map_eq_some_iff] at hst
  obtain ⟨st₀, hst₀, hif⟩ := hst
  split_ifs at hif
  · rw [← hif] at hterm
    cases hterm
  · exact ⟨st₀, hst₀, hif ▸ hterm⟩

omit [Py] in
theorem listedIds_iff (r : String) : r ∈ listedIds log.rows ↔
    ∃ row ∈ log.rows, row.runId = r ∧ row.conversationId ≠ some r ∧ row.isAudit = false := by
  rw [listedIds_perm.mem_iff, TenantDb.runIds, List.mem_dedup, List.mem_map]
  constructor
  · rintro ⟨lr, hlr, rfl⟩
    obtain ⟨hmem, hcond⟩ := List.mem_filter.mp hlr
    obtain ⟨row, hrow, rfl⟩ := List.mem_map.mp hmem
    simp [clause] at hcond
    exact ⟨row, hrow, rfl, hcond.1, hcond.2⟩
  · rintro ⟨row, hrow, rfl, hconv, haudit⟩
    refine ⟨row.toLogRow, List.mem_filter.mpr ⟨List.mem_map_of_mem hrow, ?_⟩, rfl⟩
    simp [clause, hconv, haudit]

theorem Extends.listed (h : Extends log log' added) (r : String) :
    r ∈ listedIds log'.rows ↔ r ∈ listedIds log.rows := by
  constructor
  · intro hr
    obtain ⟨row, hrow, hrun, hconv, haudit⟩ := (listedIds_iff r).mp hr
    rw [h.rows] at hrow
    obtain hrow | hrow := List.mem_append.mp hrow
    · exact (listedIds_iff r).mpr ⟨row, hrow, hrun, hconv, haudit⟩
    · rw [← hrun]
      exact (h.all row hrow).listed
  · intro hr
    obtain ⟨row, hrow, hrest⟩ := (listedIds_iff r).mp hr
    refine (listedIds_iff r).mpr ⟨row, ?_, hrest⟩
    rw [h.rows]
    exact List.mem_append_left _ hrow

/-- The events of each run share one tenant. -/
def OneTenant (log : EventLog) : Prop :=
  ∀ a ∈ log.rows, ∀ b ∈ log.rows, a.runId = b.runId → a.tenantId = b.tenantId

/-- Sweeps leave the derived tenant as it is. -/
theorem Extends.tenant (hone : OneTenant log) (h : Extends log log' added) (hr : r ∈ listedIds log.rows) :
    deriveRunTenant (runRowsOf log'.rows r) = deriveRunTenant (runRowsOf log.rows r) := by
  obtain ⟨row, hrow, hrun⟩ := exists_row_of_listed hr
  rw [h.runRows]
  apply deriveRunTenant_append
  · intro e he
    obtain ⟨he, her⟩ := mem_runRowsOf.mp he
    exact hone e he row hrow (her.trans hrun.symm)
  · intro e he
    obtain ⟨he, her⟩ := List.mem_filter.mp he
    rw [(h.all e he).tenant, of_decide_eq_true her]

omit [Py] in
theorem hasKey_of_rows {k : String} {t : EventType} (h : log'.rows = log.rows ++ added)
    (hkey : log'.hasKey r t k = false) : log.hasKey r t k = false := by
  rw [EventLog.hasKey, h, List.any_append, Bool.or_eq_false_iff] at hkey
  exact hkey.1

/-- One append of a sweep. -/
theorem Extends.append (h : Extends log log' added) {d : ParsedDraft} {now : ℕ}
    (hadd : d.idempotencyKey.any (log'.hasKey d.runId d.eventType) = false → Added log (log'.rowFor d now)) :
    ∃ more, (log'.append d now).rows = log'.rows ++ more ∧
      Extends log (log'.append d now) (added ++ more) := by
  rw [EventLog.append]
  split_ifs with hkey
  · exact ⟨[], (List.append_nil _).symm, by rw [List.append_nil]; exact h⟩
  · refine ⟨[log'.rowFor d now], rfl, ⟨?_, fun row hrow => ?_⟩⟩
    · show log'.rows ++ [log'.rowFor d now] = _
      rw [h.rows, List.append_assoc]
    · obtain hrow | hrow := List.mem_append.mp hrow
      · exact h.all row hrow
      · rw [List.mem_singleton.mp hrow]
        exact hadd (Bool.eq_false_of_not_eq_true hkey)

end added

/-! ### A sweep -/

section sweeps
variable [Py] {log log' : EventLog} {added : List ParsedRow} {r : String} {now : ℕ}

theorem verdict_of_active (h : Active log r) : verdict now log r =
    .terminates (orphanedDraft r (runRowsOf log.rows r) now) (failedDraft r (runRowsOf log.rows r)) := by
  obtain ⟨st, hst, hterm⟩ := h
  have hne : (runRowsOf log.rows r).isEmpty = false := by
    cases hrows : runRowsOf log.rows r with
    | nil =>
        rw [foldedStatus, hrows] at hst
        cases hst
    | cons row rest => rfl
  rw [verdict, hne, hst]
  simp [hterm]

theorem verdict_of_ended (h : Ended log r) : verdict now log r = .skips := by
  obtain ⟨st, hst, hterm⟩ := ended_iff.mp h
  rw [verdict, hst]
  simp [hterm]

/-- A run is skipped when it has ended or has no events, raises when it cannot be folded, and is terminated
when it has not ended. -/
theorem verdict_cases (log : EventLog) (r : String) (now : ℕ) :
    verdict now log r = .skips ∨ verdict now log r = .raises ∨ Active log r := by
  by_cases hempty : (runRowsOf log.rows r).isEmpty = true
  · exact .inl (by rw [verdict]; exact if_pos hempty)
  · cases hst : foldedStatus log.rows r with
    | none =>
        refine .inr (.inl ?_)
        rw [verdict, hst]
        exact if_neg hempty
    | some st =>
        cases hterm : st.isTerminal with
        | true => exact .inl (verdict_of_ended (ended_iff.mpr ⟨st, hst, hterm⟩))
        | false => exact .inr (.inr ⟨st, hst, hterm⟩)

omit [Py] in
theorem detectKey_ne_failKey (r : String) : detectKey r ≠ failKey r := by
  intro h
  have hlist := congrArg (fun s : String => s.toList.take 8) h
  simp only [detectKey, failKey, String.toList_append] at hlist
  rw [List.take_append_of_le_length (by decide), List.take_append_of_le_length (by decide)] at hlist
  exact absurd hlist (by decide)

/-- The flag of an active run is one of the rows a sweep adds. -/
theorem Extends.appendOrphaned (hone : OneTenant log) (h : Extends log log' added)
    (hr : r ∈ listedIds log.rows) (hactive : Active log' r) (now : ℕ) :
    ∃ more, (log'.append (orphanedDraft r (runRowsOf log'.rows r) now) now).rows = log'.rows ++ more ∧
      Extends log (log'.append (orphanedDraft r (runRowsOf log'.rows r) now) now) (added ++ more) := by
  apply h.append
  intro _
  exact ⟨hr, h.active_of hactive, h.tenant hone hr, rfl, rfl, fun hfails => by cases hfails⟩

/-- So is its failure. -/
theorem Extends.appendFailed (h : Extends log log' added) (hr : r ∈ listedIds log.rows)
    {events : List ParsedRow} (hactive : Active log r)
    (htenant : deriveRunTenant events = deriveRunTenant (runRowsOf log.rows r)) (now : ℕ) :
    ∃ more, (log'.append (failedDraft r events) now).rows = log'.rows ++ more ∧
      Extends log (log'.append (failedDraft r events) now) (added ++ more) := by
  apply h.append
  intro hkey
  exact ⟨hr, hactive, htenant, rfl, rfl, fun _ => hasKey_of_rows h.rows hkey⟩

/-- **The two appends for one run.** -/
theorem Extends.terminate (hone : OneTenant log) (h : Extends log log' added) (hr : r ∈ listedIds log.rows)
    (hactive : Active log' r) (now : ℕ) :
    ∃ more, Extends log ((log'.append (orphanedDraft r (runRowsOf log'.rows r) now) now).append
      (failedDraft r (runRowsOf log'.rows r)) now) (added ++ more) := by
  obtain ⟨more, -, h₁⟩ := h.appendOrphaned hone hr hactive now
  obtain ⟨more', -, h₂⟩ := h₁.appendFailed hr (h.active_of hactive) (h.tenant hone hr) now
  exact ⟨more ++ more', by rw [← List.append_assoc]; exact h₂⟩

/-- **A sweep adds what sweeps add**, wherever it is cut short. -/
theorem extends_crashAfter (now : ℕ) (hone : OneTenant log) {ids : List String}
    (hids : ∀ r ∈ ids, r ∈ listedIds log.rows) (h : Extends log log' added) (n : ℕ) :
    ∃ more, Extends log (crashAfter now n ids log') (added ++ more) := by
  induction ids generalizing log' added n with
  | nil => exact ⟨[], by rw [crashAfter, List.append_nil]; exact h⟩
  | cons r ids ih =>
      rw [List.forall_mem_cons] at hids
      rw [crashAfter]
      obtain hv | hv | hactive := verdict_cases log' r now
      · rw [hv]
        exact ih hids.2 h n
      · rw [hv]
        exact ⟨[], by rw [List.append_nil]; exact h⟩
      · rw [verdict_of_active hactive]
        match n with
        | 0 => exact ⟨[], by rw [List.append_nil]; exact h⟩
        | 1 =>
            obtain ⟨more, -, h₁⟩ := h.appendOrphaned hone hids.1 hactive now
            exact ⟨more, h₁⟩
        | n + 2 =>
            obtain ⟨more, h₂⟩ := h.terminate hone hids.1 hactive now
            obtain ⟨more', h₃⟩ := ih hids.2 h₂ n
            exact ⟨more ++ more', by rw [← List.append_assoc]; exact h₃⟩

theorem extends_markOrphans (now : ℕ) (hone : OneTenant log) {ids : List String}
    (hids : ∀ r ∈ ids, r ∈ listedIds log.rows) (h : Extends log log' added) :
    ∃ more, Extends log (markOrphans now ids log').1 (added ++ more) := by
  induction ids generalizing log' added with
  | nil => exact ⟨[], by rw [markOrphans, List.append_nil]; exact h⟩
  | cons r ids ih =>
      rw [List.forall_mem_cons] at hids
      rw [markOrphans]
      obtain hv | hv | hactive := verdict_cases log' r now
      · rw [hv]
        exact ih hids.2 h
      · rw [hv]
        exact ⟨[], by rw [List.append_nil]; exact h⟩
      · rw [verdict_of_active hactive]
        obtain ⟨more, h₂⟩ := h.terminate hone hids.1 hactive now
        obtain ⟨more', h₃⟩ := ih hids.2 h₂
        exact ⟨more ++ more', by rw [← List.append_assoc]; exact h₃⟩

/-- What the sweep needs of the store: every listed run can be folded, and a run that has not ended has a
tenant that is not empty and no event under the key of the failure. -/
structure Sweepable (log : EventLog) : Prop where
  folds : ∀ r ∈ listedIds log.rows, (foldedStatus log.rows r).isSome = true
  tenant : ∀ r ∈ listedIds log.rows, Active log r → ∀ row ∈ log.rows, row.runId = r → row.tenantId ≠ ""
  key : ∀ r ∈ listedIds log.rows, Active log r → log.hasKey r .run (failKey r) = false

/-- The key of the failure is free as long as the run has not ended. -/
theorem hasKey_failKey (hfree : log.hasKey r .run (failKey r) = false) (h : Extends log log' added)
    (hactive : Active log' r) : log'.hasKey r .run (failKey r) = false := by
  rw [EventLog.hasKey, h.rows, List.any_append, Bool.or_eq_false_iff]
  refine ⟨hfree, ?_⟩
  rw [List.any_eq_false]
  intro row hrow hkey
  simp only [EventRow.hasKey, Bool.and_eq_true, decide_eq_true_eq] at hkey
  obtain ⟨⟨hrun, -⟩, hkey⟩ := hkey
  have hadded := h.all row hrow
  rw [hadded.key, Option.some.injEq] at hkey
  split_ifs at hkey with hfails
  · exact not_active_of_ended (h.ended_iff.mpr (.inr ⟨h.active_of hactive, row, hrow, hrun, hfails⟩)) hactive
  · rw [hrun] at hkey
    exact detectKey_ne_failKey r hkey

theorem active_or_ended (hs : Sweepable log) (h : Extends log log' added) (hr : r ∈ listedIds log.rows) :
    Active log' r ∨ Ended log' r := by
  obtain ⟨st, hst⟩ := Option.isSome_iff_exists.mp (hs.folds r hr)
  have hst' := foldedStatus_extends h r
  rw [hst, Option.map_some] at hst'
  cases hterm : (if added.any fun row => row.runId = r && row.parsed.failsRun then RunStatus.failed
    else st).isTerminal with
  | false => exact .inl ⟨_, hst', hterm⟩
  | true => exact .inr (JAgent.ended_iff.mpr ⟨_, hst', hterm⟩)

/-- A run that has ended stays so. -/
theorem Extends.ended_mono {log'' : EventLog} {more : List ParsedRow} (h : Extends log log' added)
    (h' : Extends log log'' (added ++ more)) (hended : Ended log' r) : Ended log'' r := by
  rw [h.ended_iff] at hended
  rw [h'.ended_iff]
  obtain hended | ⟨hactive, row, hrow, hfails⟩ := hended
  · exact .inl hended
  · exact .inr ⟨hactive, row, List.mem_append_left _ hrow, hfails⟩

/-- **The two appends end the run** when the key of the failure is free. -/
theorem Extends.ended_of_terminate (hone : OneTenant log) (hs : Sweepable log) (h : Extends log log' added)
    (hr : r ∈ listedIds log.rows) (hactive : Active log' r) (now : ℕ) :
    ∃ more, Extends log ((log'.append (orphanedDraft r (runRowsOf log'.rows r) now) now).append
        (failedDraft r (runRowsOf log'.rows r)) now) (added ++ more) ∧
      Ended ((log'.append (orphanedDraft r (runRowsOf log'.rows r) now) now).append
        (failedDraft r (runRowsOf log'.rows r)) now) r := by
  have hlog := h.active_of hactive
  obtain ⟨more, -, h₁⟩ := h.appendOrphaned hone hr hactive now
  obtain ⟨more', hrows, h₂⟩ := h₁.appendFailed hr hlog (h.tenant hone hr) now
  refine ⟨more ++ more', by rw [← List.append_assoc]; exact h₂, ?_⟩
  obtain hactive₁ | hended₁ := active_or_ended hs h₁ hr
  · have hfree := hasKey_failKey (hs.key r hr hlog) h₁ hactive₁
    -- the failure is not there yet, and so it is inserted
    have hinsert := hrows
    rw [EventLog.append, if_neg (by
      show ¬Option.any _ (some (failKey r)) = true
      rw [Option.any_some, Bool.not_eq_true]
      exact hfree)] at hinsert
    have hmore := List.append_cancel_left hinsert
    let row := (log'.append (orphanedDraft r (runRowsOf log'.rows r) now) now).rowFor
      (failedDraft r (runRowsOf log'.rows r)) now
    have hrow : row ∈ more' := by
      rw [← hmore]
      exact List.mem_singleton_self _
    have hmem : row ∈ added ++ (more ++ more') := List.mem_append_right _ (List.mem_append_right _ hrow)
    rw [← List.append_assoc] at hmem
    exact h₂.ended_iff.mpr (.inr ⟨hlog, row, hmem, rfl, rfl⟩)
  · exact h₁.ended_mono h₂ hended₁

/-- **A sweep that goes to its end ends every run of its list**, from wherever an earlier one was cut
short. -/
theorem markOrphans_ends (now : ℕ) (hone : OneTenant log) (hs : Sweepable log) {ids : List String}
    (hids : ∀ r ∈ ids, r ∈ listedIds log.rows) (h : Extends log log' added) :
    ∃ k more, (markOrphans now ids log').2 = some k ∧ Extends log (markOrphans now ids log').1 (added ++ more) ∧
      ∀ r ∈ ids, Ended (markOrphans now ids log').1 r := by
  induction ids generalizing log' added with
  | nil =>
      refine ⟨0, [], rfl, ?_, fun r hr => absurd hr List.not_mem_nil⟩
      rw [markOrphans, List.append_nil]
      exact h
  | cons r ids ih =>
      rw [List.forall_mem_cons] at hids
      rw [markOrphans]
      obtain hactive | hended := active_or_ended hs h hids.1
      · rw [verdict_of_active hactive]
        obtain ⟨more, h₂, hended₂⟩ := h.ended_of_terminate hone hs hids.1 hactive now
        obtain ⟨k, more', hk, h₃, hall⟩ := ih hids.2 h₂
        refine ⟨k + 1, more ++ more', ?_, by rw [← List.append_assoc]; exact h₃, ?_⟩
        · show Option.map _ _ = _
          rw [hk]
          rfl
        · exact List.forall_mem_cons.mpr ⟨h₂.ended_mono h₃ hended₂, hall⟩
      · rw [verdict_of_ended hended]
        obtain ⟨k, more, hk, h₃, hall⟩ := ih hids.2 h
        exact ⟨k, more, hk, h₃, List.forall_mem_cons.mpr ⟨h.ended_mono h₃ hended, hall⟩⟩

/-- Where all runs have ended a sweep appends nothing. -/
theorem markOrphans_of_ended {ids : List String} (hended : ∀ r ∈ ids, Ended log r) :
    markOrphans now ids log = (log, some 0) := by
  induction ids with
  | nil => rfl
  | cons r ids ih =>
      rw [List.forall_mem_cons] at hended
      rw [markOrphans, verdict_of_ended hended.1]
      exact ih hended.2

/-- A sweep that dies before its first append has done nothing. -/
theorem crashAfter_zero (ids : List String) : crashAfter now 0 ids log = log := by
  induction ids with
  | nil => rfl
  | cons r ids ih =>
      rw [crashAfter]
      obtain hv | hv | hactive := verdict_cases log r now
      · rw [hv]
        exact ih
      · rw [hv]
      · rw [verdict_of_active hactive]

end sweeps

/-! ### Sweep, crash and sweep again -/

/-- The ids that `list_all_run_ids` may give, in any order. -/
def Lists (ids : List String) (log : EventLog) : Prop := ids.Nodup ∧ ∀ r, r ∈ ids ↔ r ∈ listedIds log.rows

theorem lists_listAllRunIds (log : EventLog) : Lists (log.toTenantDb.listAllRunIds none) log := by
  have hperm : (listedIds log.rows).Perm (log.toTenantDb.listAllRunIds none) := listedIds_perm
  exact ⟨hperm.nodup_iff.mp nodup_listedIds, fun r => hperm.mem_iff.symm⟩

section claim
variable [Py]

/-- The second store is what sweeps should make of the first: every listed run has ended, each row that was
added is of a run of the store and carries its tenant, and the runs that had ended have the rows they
had. -/
structure Swept (log log' : EventLog) : Prop where
  ended : ∀ r ∈ listedIds log'.rows, Ended log' r
  added : ∃ added, log'.rows = log.rows ++ added ∧ ∀ row ∈ added,
    (∃ row₀ ∈ log.rows, row₀.runId = row.runId) ∧
      ∀ row₀ ∈ log.rows, row₀.runId = row.runId → row.tenantId = row₀.tenantId
  kept : ∀ r, Ended log r → runRowsOf log'.rows r = runRowsOf log.rows r

/-- **The sweep converges and is idempotent**: after a sweep that died at any point and a new one in a
new process, the store is swept, and one sweep more appends nothing. -/
def SweepConverges (log : EventLog) : Prop :=
  ∀ (now n : ℕ) (ids : List String) (log₁ : EventLog), Lists ids log →
    log₁.rows = (crashAfter now n ids log).rows →
    ∀ (now' : ℕ) (ids' : List String), Lists ids' log₁ →
      (∃ k, (markOrphans now' ids' log₁).2 = some k) ∧ Swept log (markOrphans now' ids' log₁).1 ∧
        ∀ (now'' : ℕ) (ids'' : List String) (log₂ : EventLog),
          log₂.rows = (markOrphans now' ids' log₁).1.rows → Lists ids'' log₂ →
            markOrphans now'' ids'' log₂ = (log₂, some 0)

omit [Py] in
theorem deriveRunTenant_ne_empty (events : List ParsedRow) : deriveRunTenant events ≠ "" := by
  obtain ⟨e, -, hne, he⟩ | ⟨-, he⟩ := deriveRunTenant_cases events
  · rw [he]
    exact hne
  · rw [he]
    decide

/-- Nothing is added to a run that had ended. -/
theorem Extends.runRows_of_ended {log log' : EventLog} {added : List ParsedRow} {r : String}
    (h : Extends log log' added) (hr : Ended log r) : runRowsOf log'.rows r = runRowsOf log.rows r := by
  have hnil : (added.filter fun row => row.runId = r) = [] := by
    rw [List.filter_eq_nil_iff]
    intro row hrow hrun
    have hactive := (h.all row hrow).active
    rw [of_decide_eq_true hrun] at hactive
    exact not_active_of_ended hr hactive
  rw [h.runRows, hnil, List.append_nil]

/-- A row that was added is of a run of the store and carries its tenant. -/
theorem Added.carries {log : EventLog} {row : ParsedRow} (h : Added log row) (hone : OneTenant log)
    (hs : Sweepable log) : (∃ row₀ ∈ log.rows, row₀.runId = row.runId) ∧
      ∀ row₀ ∈ log.rows, row₀.runId = row.runId → row.tenantId = row₀.tenantId := by
  obtain ⟨row₁, hrow₁, hrun₁⟩ := exists_row_of_listed h.listed
  refine ⟨⟨row₁, hrow₁, hrun₁⟩, fun row₀ hrow₀ hrun₀ => ?_⟩
  have hne := hs.tenant _ h.listed h.active row₀ hrow₀ hrun₀
  obtain ⟨e, he, -, hd⟩ | ⟨hempty, -⟩ := deriveRunTenant_cases (runRowsOf log.rows row.runId)
  · obtain ⟨he, her⟩ := mem_runRowsOf.mp he
    rw [h.tenant, hd]
    exact hone e he row₀ hrow₀ (her.trans hrun₀.symm)
  · exact absurd (hempty row₀ (mem_runRowsOf.mpr ⟨hrow₀, hrun₀⟩)) hne

/-- One sweep, with none before it, says what the runs must be like. -/
theorem SweepConverges.sweepable {log : EventLog} (hconv : SweepConverges log) (hone : OneTenant log) :
    Sweepable log := by
  have hlists := lists_listAllRunIds log
  obtain ⟨-, hswept, -⟩ := hconv 0 0 _ log hlists (by rw [crashAfter_zero]) 0 _ hlists
  have hids : ∀ r ∈ log.toTenantDb.listAllRunIds none, r ∈ listedIds log.rows := fun r => (hlists.2 r).mp
  obtain ⟨added, h⟩ := extends_markOrphans 0 hone hids (Extends.refl log)
  rw [List.nil_append] at h
  have hrow : ∀ r ∈ listedIds log.rows, Active log r →
      ∃ row ∈ added, row.runId = r ∧ row.parsed.failsRun = true := by
    intro r hr hactive
    obtain hended | ⟨-, hrow⟩ := h.ended_iff.mp (hswept.ended r ((h.listed r).mpr hr))
    · exact absurd hactive (not_active_of_ended hended)
    · exact hrow
  refine ⟨fun r hr => ?_, fun r hr hactive row hmem hrun hempty => ?_, fun r hr hactive => ?_⟩
  · obtain ⟨st, hst, -⟩ := ended_iff.mp (hswept.ended r ((h.listed r).mpr hr))
    rw [foldedStatus_extends h, Option.map_eq_some_iff] at hst
    obtain ⟨st₀, hst₀, -⟩ := hst
    rw [hst₀]
    rfl
  · obtain ⟨x, hx, hxr, -⟩ := hrow r hr hactive
    obtain ⟨added', hrows', htenant⟩ := hswept.added
    rw [h.rows] at hrows'
    obtain rfl := List.append_cancel_left hrows'
    have hsame := (htenant x hx).2 row hmem (hrun.trans hxr.symm)
    have hderived := (h.all x hx).tenant
    rw [hsame, hempty] at hderived
    exact deriveRunTenant_ne_empty _ hderived.symm
  · obtain ⟨x, hx, hxr, hfails⟩ := hrow r hr hactive
    rw [← hxr]
    exact (h.all x hx).fresh hfails

/-- **The orphan sweep converges** exactly when every listed run can be folded, and each run that has not
ended has a tenant that is not empty and no event yet under the key of the failure. -/
theorem orphan_sweep_converges_iff (log : EventLog) (hone : OneTenant log) :
    SweepConverges log ↔ Sweepable log := by
  refine ⟨fun hconv => hconv.sweepable hone, ?_⟩
  intro hs now n ids log₁ hlists hrows now' ids' hlists'
  obtain ⟨added, hcrash⟩ := extends_crashAfter now hone (fun r => (hlists.2 r).mp) (Extends.refl log) n
  have h₁ : Extends log log₁ added := by
    rw [List.nil_append] at hcrash
    exact hcrash.of_rows hrows
  have hids' : ∀ r ∈ ids', r ∈ listedIds log.rows := fun r hr => (h₁.listed r).mp ((hlists'.2 r).mp hr)
  obtain ⟨k, more, hk, h, hended⟩ := markOrphans_ends now' hone hs hids' h₁
  have hall : ∀ r ∈ listedIds log.rows, Ended (markOrphans now' ids' log₁).1 r :=
    fun r hr => hended r ((hlists'.2 r).mpr ((h₁.listed r).mpr hr))
  refine ⟨⟨k, hk⟩, ⟨fun r hr => hall r ((h.listed r).mp hr), ?_, fun r hr => h.runRows_of_ended hr⟩,
    fun now'' ids'' log₂ hrows₂ hlists₂ => ?_⟩
  · exact ⟨added ++ more, h.rows, fun row hrow => (h.all row hrow).carries hone hs⟩
  · -- the next sweep finds every run ended
    have h₂ : Extends log log₂ (added ++ more) := h.of_rows hrows₂
    apply markOrphans_of_ended
    intro r hr
    have hended := hall r ((h₂.listed r).mp ((hlists₂.2 r).mp hr))
    rw [Ended, hrows₂]
    exact hended

end claim

section sample

attribute [local instance] asciiPy

/-- The start of a run. -/
def startedDraft (runId : String) : ParsedDraft where
  runId := runId
  eventType := .run
  payload := [("phase", .str "started"), ("intent", .str "list the files")]
  parsed := .runStarted { intent := "list the files" }
  eventType_eq := rfl
  phase_eq := rfl

/-- A store without rows. -/
def EventLog.empty : EventLog := { rows := [], runToConv := .empty, runToWorkspace := .empty, ordered := .nil }

/-- A run that has started and not ended. -/
def startedLog : EventLog := EventLog.empty.append (startedDraft "run_1") 3

/-- The sweep ends a run that has started. -/
theorem started_run_swept : OneTenant startedLog ∧ SweepConverges startedLog := by
  have hone : OneTenant startedLog := by
    rw [OneTenant]
    decide +kernel
  refine ⟨hone, (orphan_sweep_converges_iff startedLog hone).mpr ?_⟩
  have hlisted : ∀ r ∈ listedIds startedLog.rows, r = "run_1" := by
    intro r hr
    obtain ⟨row, hrow, rfl⟩ := exists_row_of_listed hr
    obtain rfl := List.mem_singleton.mp hrow
    rfl
  have hstatus : foldedStatus startedLog.rows "run_1" = some .running := by
    rw [foldedStatus, startedLog.runRowsOf_eq]
    decide +kernel
  constructor
  · intro r hr
    rw [hlisted r hr, hstatus]
    rfl
  · intro r _ _ row hrow _
    obtain rfl := List.mem_singleton.mp hrow
    decide +kernel
  · intro r hr _
    rw [hlisted r hr]
    decide +kernel

/-- A plan with a step that has no id. -/
def planDraft : ParsedDraft where
  runId := "run_1"
  eventType := .plan
  payload := [("phase", .str "created"), ("plan_id", .str "plan_1"), ("intent", .str "list the files"),
    ("steps_summary", .str ""), ("layer_count", .int 1), ("steps", .arr [.obj []])]
  parsed := .planCreated "plan_1" "list the files" "" 1 [[]]
  eventType_eq := rfl
  phase_eq := rfl

/-- The start of another step of the plan. -/
def stepDraft : ParsedDraft where
  runId := "run_1"
  eventType := .step
  payload := [("phase", .str "started"), ("plan_id", .str "plan_1"), ("step_id", .str "a"),
    ("tool_name", .str "list_files"), ("depends_on", .arr [])]
  parsed := .stepStarted "plan_1" "a" "list_files" []
  eventType_eq := rfl
  phase_eq := rfl

/-- Two runs that have not ended, the first with a step without an id in its plan. -/
def namelessLog : EventLog :=
  (((EventLog.empty.append (startedDraft "run_1") 3).append planDraft 4).append stepDraft 5).append
    (startedDraft "run_2") 6

/-- **A run that cannot be folded stops the sweep**: it raises before it has appended anything, and the run
behind it keeps running as well. -/
theorem nameless_step_stops_sweep :
    OneTenant namelessLog ∧ namelessLog.toTenantDb.listAllRunIds none = ["run_1", "run_2"] ∧
      markOrphans 9 ["run_1", "run_2"] namelessLog = (namelessLog, none) ∧
      foldedStatus namelessLog.rows "run_2" = some .running ∧ ¬SweepConverges namelessLog := by
  have hids : namelessLog.toTenantDb.listAllRunIds none = ["run_1", "run_2"] := by decide +kernel
  have hfold : foldedStatus namelessLog.rows "run_1" = none := by
    rw [foldedStatus, namelessLog.runRowsOf_eq]
    decide +kernel
  have hrows : (runRowsOf namelessLog.rows "run_1").isEmpty = false := by
    rw [namelessLog.runRowsOf_eq]
    decide +kernel
  have hraises : ∀ now, markOrphans now ["run_1", "run_2"] namelessLog = (namelessLog, none) := by
    intro now
    rw [markOrphans, verdict, hrows, hfold]
    rfl
  refine ⟨by rw [OneTenant]; decide +kernel, hids, hraises 9, ?_, fun hconv => ?_⟩
  · rw [foldedStatus, namelessLog.runRowsOf_eq]
    decide +kernel
  · have hlists := lists_listAllRunIds namelessLog
    rw [hids] at hlists
    obtain ⟨⟨k, hk⟩, -⟩ := hconv 0 0 _ namelessLog hlists (by rw [crashAfter_zero]) 0 _ hlists
    rw [hraises 0] at hk
    cases hk

end sample

end JAgent
