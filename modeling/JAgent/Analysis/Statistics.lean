import JAgent.Analysis.Dashboard
import JAgent.Analysis.Traces

/-! # Statistics of tools and guardrails

`get_tool_stats` and `get_guardrail_stats` read the TOOL events of a window of time and count them in one
pass, by the name of the tool or the id of the guardrail.  The dashboard counts the same events by an
aggregate query.

The two ways of counting agree: whatever is in the table and whatever the window is, each tool and each
guardrail is listed once with the numbers of its own events, and the numbers of all of them add up to those
of the dashboard (`statistics_agree`). -/

namespace JAgent

/-! ### The answers -/

/-- `e.payload.get("tool_name", "?")`. -/
def Payload.toolName : Payload → String
  | .toolCalled p => p.toolName
  | .toolCompleted p => p.toolName
  | .toolFailed _ toolName .. | .toolTimeout _ toolName .. | .guardrailTriggered _ toolName .. => toolName
  | .outputBlobStored p => p.toolName
  | _ => "?"

/-- `_fetch_events_by_types({EventType.TOOL}, since, until)`. -/
def fetchToolRows (since til : ℕ) (table : List ParsedRow) : List ParsedRow :=
  ((inWindow since til table).filter fun row => row.eventType = .tool).mergeSort fun a b =>
    decide (a.runId < b.runId) || (decide (a.runId = b.runId) && decide (a.seq ≤ b.seq))

/-- An entry of `stats` in `get_tool_stats`. -/
structure ToolCounts where
  callCount : ℕ := 0
  successCount : ℕ := 0
  failureCount : ℕ := 0
  timeoutCount : ℕ := 0
  guardrailCount : ℕ := 0
  resultCount : ℕ := 0
deriving DecidableEq

/-- The body of the loop over the events. -/
def ToolCounts.note (row : ParsedRow) (s : ToolCounts) : ToolCounts :=
  if row.toLogRow.phase = some "called" then { s with callCount := s.callCount + 1 }
  else if row.toLogRow.phase = some "completed" then
    { s with resultCount := s.resultCount + 1, successCount := s.successCount + 1 }
  else if row.toLogRow.phase = some "failed" then
    { s with resultCount := s.resultCount + 1, failureCount := s.failureCount + 1 }
  else if row.toLogRow.phase = some "timeout" then
    { s with resultCount := s.resultCount + 1, timeoutCount := s.timeoutCount + 1 }
  else if row.toLogRow.phase = some "blocked" then { s with guardrailCount := s.guardrailCount + 1 }
  else s

/-- `ToolStatItem`, without the average duration. -/
structure ToolStatItem where
  toolName : String
  callCount : ℕ
  successCount : ℕ
  failureCount : ℕ
  timeoutCount : ℕ
  guardrailBlockedCount : ℕ
deriving DecidableEq

/-- The item of an entry. -/
def ToolStatItem.ofEntry (entry : String × ToolCounts) : ToolStatItem where
  toolName := entry.1
  callCount := entry.2.callCount
  successCount := entry.2.successCount
  failureCount := entry.2.failureCount
  timeoutCount := entry.2.timeoutCount
  guardrailBlockedCount := entry.2.guardrailCount

/-- `stats` of `get_tool_stats` after the loop. -/
def toolCounts (rows : List ParsedRow) : Lib.Dict String ToolCounts :=
  Lib.Keyed.table (fun row => some row.parsed.toolName) (fun row s => (s.getD {}).note row) rows

/-- `get_tool_stats`; `now` is the time of the call. -/
def getToolStats (now : ℕ) (since til : Option ℕ) (table : List ParsedRow) : List ToolStatItem :=
  let stats := toolCounts (fetchToolRows (since.getD 0) (windowEnd now til) table)
  (stats.items.mergeSort fun a b => b.2.callCount ≤ a.2.callCount).map ToolStatItem.ofEntry

/-- An entry of `stats` in `get_guardrail_stats`; `tools` is a set. -/
structure GuardrailCounts where
  count : ℕ := 0
  tools : List String := []
  lastReason : Option String := none
deriving DecidableEq

/-- The body of the loop over the events that are not passed over. -/
def GuardrailCounts.note (row : ParsedRow) (s : GuardrailCounts) : GuardrailCounts :=
  match row.parsed with
  | .guardrailTriggered _ toolName _ reason _ _ =>
      { count := s.count + 1, tools := s.tools.insert toolName, lastReason := some reason }
  | _ => s

structure GuardrailStatItem where
  guardrailId : String
  triggerCount : ℕ
  toolsAffected : List String
  recentReason : Option String
deriving DecidableEq

/-- The item of an entry. -/
def GuardrailStatItem.ofEntry (entry : String × GuardrailCounts) : GuardrailStatItem where
  guardrailId := entry.1
  triggerCount := entry.2.count
  toolsAffected := entry.2.tools.mergeSort fun a b => decide (a ≤ b)
  recentReason := entry.2.lastReason

/-- The guardrail of an event; those of another phase are passed over. -/
def guardrailOf (row : ParsedRow) : Option String := row.parsed.stoppedBy.map Prod.fst

/-- `stats` of `get_guardrail_stats` after the loop. -/
def guardrailCounts (rows : List ParsedRow) : Lib.Dict String GuardrailCounts :=
  Lib.Keyed.table guardrailOf (fun row s => (s.getD {}).note row) rows

/-- `get_guardrail_stats`; `now` is the time of the call. -/
def getGuardrailStats (now : ℕ) (since til : Option ℕ) (table : List ParsedRow) : List GuardrailStatItem :=
  let stats := guardrailCounts (fetchToolRows (since.getD 0) (windowEnd now til) table)
  (stats.items.mergeSort fun a b => b.2.count ≤ a.2.count).map GuardrailStatItem.ofEntry

/-! ### What the numbers should be -/

/-- The TOOL rows of a tool in a phase. -/
def toolRowCount (rows : List ParsedRow) (tool phase : String) : ℕ :=
  rows.countP fun row => decide (row.eventType = .tool) && decide (row.parsed.toolName = tool) &&
    decide (row.toLogRow.phase = some phase)

/-- The item has the numbers of the rows of its tool. -/
structure ToolStatItem.Counts (t : ToolStatItem) (rows : List ParsedRow) : Prop where
  calls : t.callCount = toolRowCount rows t.toolName "called"
  successes : t.successCount = toolRowCount rows t.toolName "completed"
  failures : t.failureCount = toolRowCount rows t.toolName "failed"
  timeouts : t.timeoutCount = toolRowCount rows t.toolName "timeout"
  blocked : t.guardrailBlockedCount = toolRowCount rows t.toolName "blocked"

/-- The item has the number of the rows of its guardrail, the tools they are about, each once, and the reason
of one of them. -/
structure GuardrailStatItem.Counts (g : GuardrailStatItem) (rows : List ParsedRow) : Prop where
  triggers : g.triggerCount = rows.countP fun row => guardrailOf row = some g.guardrailId
  tools : ∀ tool, tool ∈ g.toolsAffected ↔
    ∃ row ∈ rows, guardrailOf row = some g.guardrailId ∧ row.parsed.toolName = tool
  nodup : g.toolsAffected.Nodup
  reason : ∃ row ∈ rows, ∃ reason, row.parsed.stoppedBy = some (g.guardrailId, reason) ∧
    g.recentReason = some reason

/-! ### The rows of a query -/

section rows
variable {since til : ℕ} {table : List ParsedRow}

theorem fetchToolRows_perm : (fetchToolRows since til table).Perm
    ((inWindow since til table).filter fun row => row.eventType = .tool) := List.mergeSort_perm _ _

theorem mem_fetchToolRows {row : ParsedRow} :
    row ∈ fetchToolRows since til table ↔ row ∈ inWindow since til table ∧ row.eventType = .tool := by
  rw [fetchToolRows_perm.mem_iff, List.mem_filter, decide_eq_true_eq]

/-- The rows of a tool that the loop counts are those of the window. -/
theorem countP_own_toolRows (tool phase : String) :
    (Lib.Keyed.own (fun row : ParsedRow => some row.parsed.toolName) (fetchToolRows since til table)
      tool).countP (fun row => row.toLogRow.phase = some phase) =
        toolRowCount (inWindow since til table) tool phase := by
  rw [Lib.Keyed.own, (fetchToolRows_perm.filter _).countP_eq, List.countP_filter, List.countP_filter,
    toolRowCount]
  apply List.countP_congr
  intro row _
  simp only [Option.some.injEq, Bool.and_eq_true, decide_eq_true_eq]
  constructor
  · rintro ⟨⟨hphase, htool⟩, htype⟩
    exact ⟨⟨htype, htool⟩, hphase⟩
  · rintro ⟨⟨htype, htool⟩, hphase⟩
    exact ⟨⟨hphase, htool⟩, htype⟩

/-- The rows that the dashboard counts are those of the loop. -/
theorem countP_fetchToolRows (phase : String) :
    (fetchToolRows since til table).countP (fun row => row.toLogRow.phase = some phase) =
      rowCount (inWindow since til table) .tool phase := by
  rw [fetchToolRows_perm.countP_eq, List.countP_filter, rowCount]
  apply List.countP_congr
  intro row _
  rw [Bool.and_eq_true, Bool.and_eq_true, and_comm]

/-- What a guardrail stopped is a TOOL event of the phase `blocked`. -/
theorem guardrailOf_isSome (row : ParsedRow) :
    (guardrailOf row).isSome =
      (decide (row.eventType = .tool) && decide (row.toLogRow.phase = some "blocked")) := by
  rw [row.eventType_eq, row.phase_eq, guardrailOf]
  cases row.parsed <;> simp [Payload.stoppedBy, Payload.eventType, Payload.phase]

end rows

/-! ### Counting in one pass -/

/-- The phase of a row, as a number to add. -/
def inPhase (row : ParsedRow) (phase : String) : ℕ :=
  if decide (row.toLogRow.phase = some phase) then 1 else 0

/-- A row raises the counter of its phase. -/
theorem note_counts (row : ParsedRow) (s : ToolCounts) :
    (s.note row).callCount = s.callCount + inPhase row "called" ∧
      (s.note row).successCount = s.successCount + inPhase row "completed" ∧
      (s.note row).failureCount = s.failureCount + inPhase row "failed" ∧
      (s.note row).timeoutCount = s.timeoutCount + inPhase row "timeout" ∧
      (s.note row).guardrailCount = s.guardrailCount + inPhase row "blocked" := by
  simp only [ToolCounts.note, inPhase, decide_eq_true_eq]
  generalize row.toLogRow.phase = phase
  split_ifs <;> simp_all

section tools
variable {c : ToolCounts → ℕ} {phase : String}

/-- A counter that a row raises in its phase. -/
theorem counter_note (h : ∀ row s, c (ToolCounts.note row s) = c s + inPhase row phase) (hzero : c {} = 0)
    (row : ParsedRow) (entry : Option ToolCounts) : c ((entry.getD {}).note row) =
      (entry.map c).getD 0 + if decide (row.toLogRow.phase = some phase) then 1 else 0 := by
  rw [h]
  cases entry with
  | none =>
      rw [Option.getD_none, hzero]
      rfl
  | some s => rfl

/-- A counter of an item is the number of the rows of its tool in the phase. -/
theorem counter_eq (h : ∀ row s, c (ToolCounts.note row s) = c s + inPhase row phase) (hzero : c {} = 0)
    {since til : ℕ} {table : List ParsedRow} {entry : String × ToolCounts}
    (hentry : entry ∈ (toolCounts (fetchToolRows since til table)).items) :
    c entry.2 = toolRowCount (inWindow since til table) entry.1 phase := by
  rw [← countP_own_toolRows]
  exact Lib.Keyed.count_of_get?_table (counter_note h hzero) (Lib.Dict.mem_items_iff.mp hentry)

/-- A counter adds up to the number of the rows in the phase. -/
theorem counter_sum (h : ∀ row s, c (ToolCounts.note row s) = c s + inPhase row phase) (hzero : c {} = 0)
    (since til : ℕ) (table : List ParsedRow) :
    ((toolCounts (fetchToolRows since til table)).items.map fun entry => c entry.2).sum =
      rowCount (inWindow since til table) .tool phase := by
  rw [← countP_fetchToolRows]
  exact Lib.Keyed.sum_table (counter_note h hzero) fun _ _ _ => Option.some_ne_none _

end tools

/-- A row of a guardrail raises its count. -/
theorem count_note (row : ParsedRow) (entry : Option GuardrailCounts) :
    ((entry.getD {}).note row).count =
      (entry.map (·.count)).getD 0 + if (guardrailOf row).isSome then 1 else 0 := by
  rw [GuardrailCounts.note, guardrailOf]
  cases row.parsed <;> cases entry <;> simp [Payload.stoppedBy]

/-- What the rows of a guardrail leave in its entry, beside the count. -/
theorem entry_of_rows {rows : List ParsedRow} (h : ∀ row ∈ rows, guardrailOf row ≠ none) :
    let s := (rows.foldl (fun s row => some ((s.getD {}).note row)) none).getD ({} : GuardrailCounts)
    s.tools.Nodup ∧ (∀ tool, tool ∈ s.tools ↔ ∃ row ∈ rows, row.parsed.toolName = tool) ∧
      s.lastReason = rows.getLast?.bind fun row => row.parsed.stoppedBy.map Prod.snd := by
  induction rows using List.reverseRecOn with
  | nil => exact ⟨List.nodup_nil, fun tool => by simp, rfl⟩
  | append_singleton rows row ih =>
      obtain ⟨hnodup, htools, -⟩ := ih fun row' hrow' => h row' (List.mem_append_left _ hrow')
      have hrow := h row (by simp)
      rw [List.foldl_append, List.foldl_cons, List.foldl_nil, Option.getD_some, List.getLast?_concat,
        Option.bind_some, GuardrailCounts.note]
      rw [guardrailOf] at hrow
      cases hp : row.parsed with
      | guardrailTriggered toolCallId toolName guardrailId reason stepId workspaceId =>
          refine ⟨hnodup.insert, fun tool => ?_, rfl⟩
          rw [List.mem_insert_iff, htools]
          simp only [List.mem_append, List.mem_singleton, or_and_right, exists_or, exists_eq_left, hp,
            Payload.toolName]
          rw [or_comm, eq_comm]
      | _ =>
          rw [hp] at hrow
          exact absurd rfl hrow

/-- The rows with a guardrail are those the dashboard counts. -/
theorem countP_guardrailOf (since til : ℕ) (table : List ParsedRow) :
    (fetchToolRows since til table).countP (fun row => (guardrailOf row).isSome) =
      rowCount (inWindow since til table) .tool "blocked" := by
  rw [← countP_fetchToolRows]
  apply List.countP_congr
  intro row hrow
  rw [guardrailOf_isSome, Bool.and_eq_true, decide_eq_true_eq]
  exact and_iff_right (mem_fetchToolRows.mp hrow).2

/-- A row of a guardrail is a TOOL row. -/
theorem eventType_of_guardrailOf {row : ParsedRow} {gid : String} (h : guardrailOf row = some gid) :
    row.eventType = .tool := by
  have hsome := guardrailOf_isSome row
  rw [h, Option.isSome_some, eq_comm, Bool.and_eq_true, decide_eq_true_eq] at hsome
  exact hsome.1

/-! ### The two ways of counting -/

section agree
variable {since til : ℕ} {table : List ParsedRow}

theorem counts_of_toolEntry {entry : String × ToolCounts}
    (h : entry ∈ (toolCounts (fetchToolRows since til table)).items) :
    (ToolStatItem.ofEntry entry).Counts (inWindow since til table) where
  calls := counter_eq (fun row s => (note_counts row s).1) rfl h
  successes := counter_eq (fun row s => (note_counts row s).2.1) rfl h
  failures := counter_eq (fun row s => (note_counts row s).2.2.1) rfl h
  timeouts := counter_eq (fun row s => (note_counts row s).2.2.2.1) rfl h
  blocked := counter_eq (fun row s => (note_counts row s).2.2.2.2) rfl h

theorem counts_of_guardrailEntry {entry : String × GuardrailCounts}
    (h : entry ∈ (guardrailCounts (fetchToolRows since til table)).items) :
    (GuardrailStatItem.ofEntry entry).Counts (inWindow since til table) := by
  obtain ⟨gid, s⟩ := entry
  have hs := Lib.Dict.mem_items_iff.mp h
  have hcount := Lib.Keyed.count_of_get?_table count_note hs
  have hown : ∀ row, row ∈ Lib.Keyed.own guardrailOf (fetchToolRows since til table) gid ↔
      row ∈ inWindow since til table ∧ guardrailOf row = some gid := by
    intro row
    rw [Lib.Keyed.mem_own, mem_fetchToolRows]
    constructor
    · rintro ⟨⟨hrow, -⟩, hgid⟩
      exact ⟨hrow, hgid⟩
    · rintro ⟨hrow, hgid⟩
      exact ⟨⟨hrow, eventType_of_guardrailOf hgid⟩, hgid⟩
  rw [guardrailCounts, Lib.Keyed.get?_table] at hs
  have hguarded : ∀ row ∈ Lib.Keyed.own guardrailOf (fetchToolRows since til table) gid,
      guardrailOf row ≠ none := by
    intro row hrow
    rw [((hown row).mp hrow).2]
    exact Option.some_ne_none gid
  have hentry := entry_of_rows hguarded
  have hne : Lib.Keyed.own guardrailOf (fetchToolRows since til table) gid ≠ [] := by
    intro hnil
    rw [hnil] at hs
    cases hs
  rw [hs] at hentry
  obtain ⟨hnodup, htools, hreason⟩ := hentry
  refine ⟨?_, ?_, ?_, ?_⟩
  · rw [Lib.Keyed.own, List.countP_filter, fetchToolRows_perm.countP_eq, List.countP_filter] at hcount
    refine hcount.trans (List.countP_congr fun row _ => ?_)
    simp only [Bool.and_eq_true, decide_eq_true_eq]
    constructor
    · rintro ⟨⟨-, hgid⟩, -⟩
      exact hgid
    · intro hgid
      exact ⟨⟨by rw [hgid, Option.isSome_some], hgid⟩, eventType_of_guardrailOf hgid⟩
  · intro tool
    rw [GuardrailStatItem.ofEntry, List.mem_mergeSort]
    refine (htools tool).trans ⟨?_, ?_⟩
    · rintro ⟨row, hrow, htool⟩
      obtain ⟨hrow, hgid⟩ := (hown row).mp hrow
      exact ⟨row, hrow, hgid, htool⟩
    · rintro ⟨row, hrow, hgid, htool⟩
      exact ⟨row, (hown row).mpr ⟨hrow, hgid⟩, htool⟩
  · rw [GuardrailStatItem.ofEntry]
    exact (List.mergeSort_perm _ _).nodup_iff.mpr hnodup
  · obtain ⟨row, hlast⟩ := Option.ne_none_iff_exists'.mp (mt List.getLast?_eq_none_iff.mp hne)
    obtain ⟨hrow, hgid⟩ := (hown row).mp (List.mem_of_getLast? hlast)
    obtain ⟨⟨gid', reason⟩, hstop, rfl⟩ := Option.map_eq_some_iff.mp hgid
    refine ⟨row, hrow, reason, hstop, ?_⟩
    rw [hlast, Option.bind_some, hstop] at hreason
    exact hreason

/-- The items of a query in any order have the same sum. -/
theorem sum_toolStats (now : ℕ) (since til : Option ℕ) (table : List ParsedRow) (f : ToolStatItem → ℕ) :
    ((getToolStats now since til table).map f).sum =
      ((toolCounts (fetchToolRows (since.getD 0) (windowEnd now til) table)).items.map fun entry =>
        f (.ofEntry entry)).sum := by
  rw [getToolStats, List.map_map]
  exact ((List.mergeSort_perm _ _).map _).sum_eq

end agree

/-- **The statistics and the dashboard agree**: for every table and every window of time, each tool with a
TOOL event and each guardrail that stopped a call is listed once, with the numbers of its own events, and the
numbers add up to those of the dashboard for the same window. -/
theorem statistics_agree (now : ℕ) (since til : Option ℕ) (table : List ParsedRow) :
    let window := inWindow (since.getD 0) (windowEnd now til) table
    let tools := getToolStats now since til table
    let guards := getGuardrailStats now since til table
    let overview := getDashboard now since til table
    ((tools.map (·.callCount)).sum = overview.totalToolCalls ∧
        (tools.map fun t => t.failureCount + t.timeoutCount).sum = overview.totalToolFailures ∧
        (tools.map (·.guardrailBlockedCount)).sum = overview.totalGuardrailTriggers ∧
        (guards.map (·.triggerCount)).sum = overview.totalGuardrailTriggers) ∧
      ((tools.map (·.toolName)).Nodup ∧
        (∀ name, name ∈ tools.map (·.toolName) ↔
          ∃ row ∈ window, row.eventType = .tool ∧ row.parsed.toolName = name) ∧
        ∀ t ∈ tools, t.Counts window) ∧
      ((guards.map (·.guardrailId)).Nodup ∧
        (∀ gid, gid ∈ guards.map (·.guardrailId) ↔ ∃ row ∈ window, guardrailOf row = some gid) ∧
        ∀ g ∈ guards, g.Counts window) := by
  intro window tools guards overview
  have htools : (tools.map (·.toolName)).Perm
      (toolCounts (fetchToolRows (since.getD 0) (windowEnd now til) table)).keys := by
    show (List.map _ (List.map _ _)).Perm _
    rw [List.map_map]
    exact (List.mergeSort_perm _ _).map _
  have hguards : (guards.map (·.guardrailId)).Perm
      (guardrailCounts (fetchToolRows (since.getD 0) (windowEnd now til) table)).keys := by
    show (List.map _ (List.map _ _)).Perm _
    rw [List.map_map]
    exact (List.mergeSort_perm _ _).map _
  refine ⟨⟨?_, ?_, ?_, ?_⟩, ⟨?_, fun name => ?_, fun t ht => ?_⟩, ⟨?_, fun gid => ?_, fun g hg => ?_⟩⟩
  · rw [sum_toolStats]
    exact counter_sum (fun row s => (note_counts row s).1) rfl _ _ _
  · rw [sum_toolStats]
    refine List.sum_map_add.trans (congrArg₂ (· + ·) ?_ ?_)
    · exact counter_sum (fun row s => (note_counts row s).2.2.1) rfl _ _ _
    · exact counter_sum (fun row s => (note_counts row s).2.2.2.1) rfl _ _ _
  · rw [sum_toolStats]
    exact counter_sum (fun row s => (note_counts row s).2.2.2.2) rfl _ _ _
  · have hsum : (guards.map (·.triggerCount)).sum =
        ((guardrailCounts (fetchToolRows (since.getD 0) (windowEnd now til) table)).items.map
          fun entry => entry.2.count).sum := by
      show (List.map _ (List.map _ _)).sum = _
      rw [List.map_map]
      exact ((List.mergeSort_perm _ _).map _).sum_eq
    rw [hsum]
    refine (Lib.Keyed.sum_table count_note ?_).trans (countP_guardrailOf _ _ _)
    intro row _ hsome
    exact Option.ne_none_iff_isSome.mpr hsome
  · exact htools.nodup_iff.mpr (Lib.Dict.nodup _)
  · rw [htools.mem_iff, toolCounts, Lib.Keyed.mem_keys_table]
    constructor
    · rintro ⟨row, hrow, hname⟩
      obtain ⟨hrow, htype⟩ := mem_fetchToolRows.mp hrow
      exact ⟨row, hrow, htype, Option.some.inj hname⟩
    · rintro ⟨row, hrow, htype, hname⟩
      exact ⟨row, mem_fetchToolRows.mpr ⟨hrow, htype⟩, congrArg some hname⟩
  · obtain ⟨entry, hentry, rfl⟩ := List.mem_map.mp ht
    exact counts_of_toolEntry (List.mem_mergeSort.mp hentry)
  · exact hguards.nodup_iff.mpr (Lib.Dict.nodup _)
  · rw [hguards.mem_iff, guardrailCounts, Lib.Keyed.mem_keys_table]
    constructor
    · rintro ⟨row, hrow, hgid⟩
      exact ⟨row, (mem_fetchToolRows.mp hrow).1, hgid⟩
    · rintro ⟨row, hrow, hgid⟩
      exact ⟨row, mem_fetchToolRows.mpr ⟨hrow, eventType_of_guardrailOf hgid⟩, hgid⟩
  · obtain ⟨entry, hentry, rfl⟩ := List.mem_map.mp hg
    exact counts_of_guardrailEntry (List.mem_mergeSort.mp hentry)

end JAgent
