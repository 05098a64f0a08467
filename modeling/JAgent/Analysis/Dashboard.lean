import JAgent.Lib.Counting
import JAgent.Storage.ParsedRows

/-! # The dashboard

`get_dashboard` answers with numbers of runs, from two aggregate queries over the rows of `events`: how
many rows there are of each type and phase, and how many different ids.  It folds no run.

A number of rows is the number of runs with that status only as long as each run has at most one such row
and keeps the status it sets.  An end that is followed by another change of the status, and a pause, break
this; and an id counts as a run although its stream is a conversation or an audit trail, which `list_runs`
leaves out.  `dashboard_counts_runs_iff` says that nothing else does. -/

namespace JAgent

/-! ### The answer -/

/-- `DashboardOverview`, without the rate. -/
structure DashboardOverview where
  totalRuns : ℕ
  runningRuns : ℕ
  pausedRuns : ℕ
  completedRuns : ℕ
  failedRuns : ℕ
  totalEvents : ℕ
  totalToolCalls : ℕ
  totalToolFailures : ℕ
  totalGuardrailTriggers : ℕ
deriving DecidableEq

/-- `WHERE created_at >= ? AND created_at <= ?`. -/
def inWindow (since til : ℕ) (rows : List ParsedRow) : List ParsedRow :=
  rows.filter fun row => since ≤ row.createdAt && row.createdAt ≤ til

/-- `COUNT(*) … GROUP BY event_type, phase`. -/
def rowCount (rows : List ParsedRow) (t : EventType) (phase : String) : ℕ :=
  rows.countP fun row => row.eventType = t && row.toLogRow.phase = some phase

/-- `until or time.time()`. -/
def windowEnd (now : ℕ) : Option ℕ → ℕ
  | none | some 0 => now
  | some t => t

/-- `get_dashboard`; `now` is the time of the call. -/
def getDashboard (now : ℕ) (since til : Option ℕ) (table : List ParsedRow) : DashboardOverview :=
  let rows := inWindow (since.getD 0) (windowEnd now til) table
  let totalRuns := ((rows.map (·.runId)).dedup).length
  let completed := rowCount rows .run "completed"
  let failed := rowCount rows .run "failed"
  { totalRuns := totalRuns
    runningRuns := totalRuns - completed - failed
    pausedRuns := rowCount rows .run "paused"
    completedRuns := completed
    failedRuns := failed
    totalEvents := rows.length
    totalToolCalls := rowCount rows .tool "called"
    totalToolFailures := rowCount rows .tool "failed" + rowCount rows .tool "timeout"
    totalGuardrailTriggers := rowCount rows .tool "blocked" }

/-- The runs among some ids with a status. -/
def withStatus [Py] (rows : List ParsedRow) (st : RunStatus) : ℕ :=
  (listedIds rows).countP fun r => foldedStatus rows r = some st

/-- The numbers are numbers of the listed runs. -/
structure CountsRuns [Py] (o : DashboardOverview) (rows : List ParsedRow) : Prop where
  total : o.totalRuns = (listedIds rows).length
  completed : o.completedRuns = withStatus rows .completed
  failed : o.failedRuns = withStatus rows .failed
  paused : o.pausedRuns = withStatus rows .paused
  running : o.runningRuns = withStatus rows .running
  sum : o.completedRuns + o.failedRuns + o.pausedRuns + o.runningRuns = o.totalRuns

/-- Every stream is a run that can be folded, no run was ever paused, and nothing moves the status of a
run after its end. -/
structure RunsEndOnce [Py] (rows : List ParsedRow) : Prop where
  listed : ∀ row ∈ rows, row.runId ∈ listedIds rows
  folds : ∀ r ∈ listedIds rows, (foldedStatus rows r).isSome = true
  neverPaused : ∀ row ∈ rows, statusChange row.parsed ≠ some .paused
  endsLast : ∀ r ∈ listedIds rows, EndsLast (runLog rows r)

/-! ### Logs and their counts -/

section logs
variable {log : List Payload}

/-- The last change of the status is the status. -/
theorem exists_last_change {st : RunStatus} (h : ∃ q ∈ log, statusChange q ≠ none) :
    ∃ p ∈ log, statusChange p = some (log.foldl statusAfter st) := by
  induction log using List.reverseRecOn with
  | nil =>
      obtain ⟨q, hq, -⟩ := h
      cases hq
  | append_singleton log p ih =>
      rw [List.foldl_append, List.foldl_cons, List.foldl_nil, statusAfter]
      cases hp : statusChange p with
      | some st' => exact ⟨p, List.mem_append_right _ (List.mem_singleton_self p), hp⟩
      | none =>
          have hearlier : ∃ q ∈ log, statusChange q ≠ none := by
            obtain ⟨q, hq, hne⟩ := h
            obtain hq | hq := List.mem_append.mp hq
            · exact ⟨q, hq, hne⟩
            · rw [List.mem_singleton.mp hq] at hne
              exact absurd hp hne
          obtain ⟨q, hq, hst⟩ := ih hearlier
          exact ⟨q, List.mem_append_left _ hq, hst⟩

/-- The events that set a status. -/
def setting (st : RunStatus) (log : List Payload) : ℕ := log.countP fun p => statusChange p = some st

theorem setting_pos_of_statusOf {st : RunStatus} (h : statusOf log = st) (hne : st ≠ .running) :
    1 ≤ setting st log := by
  have hchange : ∃ q ∈ log, statusChange q ≠ none := by
    by_contra hnone
    apply hne
    rw [← h]
    apply foldl_statusAfter_of_none
    intro q hq
    by_contra hq'
    exact hnone ⟨q, hq, hq'⟩
  obtain ⟨p, hp, hst⟩ := exists_last_change hchange
  have hset : statusChange p = some st := by
    rw [hst, ← h]
    rfl
  exact List.countP_pos_iff.mpr ⟨p, hp, decide_eq_true hset⟩

theorem setting_append (st : RunStatus) (log log' : List Payload) :
    setting st (log ++ log') = setting st log + setting st log' := List.countP_append

theorem setting_cons_of_eq {st : RunStatus} {p : Payload} (h : statusChange p = some st) (log : List Payload) :
    setting st (p :: log) = setting st log + 1 := List.countP_cons_of_pos (decide_eq_true h)

theorem setting_pos_of_mem {st : RunStatus} {p : Payload} (hp : p ∈ log) (h : statusChange p = some st) :
    1 ≤ setting st log := List.countP_pos_iff.mpr ⟨p, hp, decide_eq_true h⟩

/-- What ends a run completes or fails it. -/
theorem setting_terminal : setting .completed log + setting .failed log =
    (log.filter Payload.isTerminal).length := by
  rw [← List.countP_eq_length_filter]
  induction log with
  | nil => rfl
  | cons p log ih =>
      rw [List.countP_cons, ← ih, setting, setting, List.countP_cons, List.countP_cons]
      cases p <;> simp [statusChange, Payload.isTerminal, setting] <;> omega

theorem statusOf_of_quiet {pre post : List Payload} {p : Payload} {st : RunStatus}
    (hp : statusChange p = some st) (hpost : ∀ q ∈ post, statusChange q = none) :
    statusOf (pre ++ p :: post) = st := by
  have hafter : statusAfter (pre.foldl statusAfter .running) p = st := by
    rw [statusAfter, hp]
    rfl
  rw [statusOf, List.foldl_append, List.foldl_cons, hafter]
  exact foldl_statusAfter_of_none hpost

/-- **A log ends once** when each way of ending is in it as often as it is its status. -/
theorem endsLast_iff_setting : EndsLast log ↔
    ∀ st : RunStatus, st.isTerminal = true → setting st log = if statusOf log = st then 1 else 0 := by
  constructor
  · intro h st hst
    have hle := h.length_le
    rw [← setting_terminal] at hle
    have hone : setting st log ≤ 1 := by
      cases st with
      | completed => omega
      | failed => omega
      | running | paused => cases hst
    split_ifs with hstatus
    · have hpos := setting_pos_of_statusOf hstatus (by rintro rfl; cases hst)
      omega
    · by_contra hne
      obtain ⟨p, hp, hset⟩ := List.countP_pos_iff.mp (Nat.pos_of_ne_zero hne)
      obtain ⟨pre, post, rfl⟩ := List.append_of_mem hp
      have hset := of_decide_eq_true hset
      exact hstatus (statusOf_of_quiet hset (h pre p post rfl (isTerminal_of_statusChange hset hst)))
  · rintro h pre p post rfl hp q hq
    by_contra hne
    obtain ⟨st, hset, hst⟩ := statusChange_of_isTerminal hp
    obtain ⟨p', hp', hlast⟩ :=
      @exists_last_change post (statusAfter (pre.foldl statusAfter .running) p) ⟨q, hq, hne⟩
    have hstatus : statusOf (pre ++ p :: post) =
        post.foldl statusAfter (statusAfter (pre.foldl statusAfter .running) p) := by
      rw [statusOf, List.foldl_append, List.foldl_cons]
    have hcount := h st hst
    rw [setting_append, setting_cons_of_eq hset] at hcount
    split_ifs at hcount with heq
    · -- the status is the one that `p` set, and so it was set once more
      rw [← hstatus, heq] at hlast
      have hpos := setting_pos_of_mem hp' hlast
      omega

end logs

/-! ### From rows to logs -/

section rows
variable {rows : List ParsedRow} {r : String}

/-- The rows of a stream with a property of their payload. -/
theorem inGroup_eq (f : Payload → Bool) :
    Lib.Counting.inGroup (fun row : ParsedRow => row.runId) rows (fun row => f row.parsed) r =
      (runLog rows r).countP f := by
  rw [Lib.Counting.inGroup, runLog, List.countP_map, runRowsOf_perm.countP_eq]
  rfl

/-- The type and the phase of a row say how it moves the status. -/
theorem rowCount_eq_countP (st : RunStatus) {phase : String}
    (h : ∀ p : Payload, p.eventType = .run ∧ p.phase = some phase ↔ statusChange p = some st) :
    rowCount rows .run phase = rows.countP fun row => statusChange row.parsed = some st := by
  apply List.countP_congr
  intro row _
  rw [Bool.and_eq_true, decide_eq_true_eq, decide_eq_true_eq, decide_eq_true_eq, row.eventType_eq, row.phase_eq]
  exact h row.parsed

theorem rowCount_completed :
    rowCount rows .run "completed" = rows.countP fun row => statusChange row.parsed = some .completed :=
  rowCount_eq_countP .completed fun p => by cases p <;> simp [Payload.eventType, Payload.phase, statusChange]

theorem rowCount_failed :
    rowCount rows .run "failed" = rows.countP fun row => statusChange row.parsed = some .failed :=
  rowCount_eq_countP .failed fun p => by cases p <;> simp [Payload.eventType, Payload.phase, statusChange]

theorem rowCount_paused :
    rowCount rows .run "paused" = rows.countP fun row => statusChange row.parsed = some .paused :=
  rowCount_eq_countP .paused fun p => by cases p <;> simp [Payload.eventType, Payload.phase, statusChange]

variable [Py]

/-! ### The numbers -/

theorem withStatus_eq_card (st : RunStatus) : withStatus rows st =
    ((listedIds rows).toFinset.filter fun r => decide (foldedStatus rows r = some st) = true).card := by
  rw [withStatus, List.countP_eq_length_filter, ← List.toFinset_filter,
    List.toFinset_card_of_nodup (nodup_listedIds.filter _)]

/-- A run that can be folded has one status. -/
theorem withStatus_sum : withStatus rows .completed + withStatus rows .failed + withStatus rows .paused +
    withStatus rows .running = (listedIds rows).countP fun r => (foldedStatus rows r).isSome := by
  unfold withStatus
  induction listedIds rows with
  | nil => rfl
  | cons r ids ih =>
      rw [List.countP_cons, List.countP_cons, List.countP_cons, List.countP_cons, List.countP_cons, ← ih]
      cases foldedStatus rows r with
      | none => simp
      | some st => cases st <;> simp <;> omega

/-- The rows that set an end stand for the runs with that status exactly when each run has such a row as
often as it has the status. -/
theorem countP_eq_withStatus_iff (hall : ∀ row ∈ rows, row.runId ∈ listedIds rows) {st : RunStatus}
    (hst : st.isTerminal = true) :
    (rows.countP fun row => statusChange row.parsed = some st) = withStatus rows st ↔
      ∀ r ∈ listedIds rows,
        setting st (runLog rows r) = if foldedStatus rows r = some st then 1 else 0 := by
  have hgroup : ∀ r, Lib.Counting.inGroup (fun row : ParsedRow => row.runId) rows
      (fun row => decide (statusChange row.parsed = some st)) r = setting st (runLog rows r) :=
    fun r => inGroup_eq fun p => decide (statusChange p = some st)
  have hcount := Lib.Counting.countP_eq_card_iff (p := fun row => decide (statusChange row.parsed = some st))
    (fun row hrow => List.mem_toFinset.mpr (hall row hrow))
    (fun r => decide (foldedStatus rows r = some st)) ?_
  · rw [withStatus_eq_card, hcount]
    simp only [List.mem_toFinset, hgroup, decide_eq_true_eq]
  · intro r _ hr
    rw [hgroup]
    apply setting_pos_of_statusOf (statusOf_of_foldedStatus (of_decide_eq_true hr))
    rintro rfl
    cases hst

omit [Py] in
/-- The ids are those of the listed runs exactly when there are as many. -/
theorem distinct_eq_listed_iff : ((rows.map (·.runId)).dedup).length = (listedIds rows).length ↔
    ∀ row ∈ rows, row.runId ∈ listedIds rows := by
  have hsub : listedIds rows ⊆ (rows.map (·.runId)).dedup := by
    intro r hr
    obtain ⟨row, hrow, rfl⟩ := exists_row_of_listed hr
    exact List.mem_dedup.mpr (List.mem_map_of_mem hrow)
  constructor
  · intro hlen row hrow
    have hperm := (nodup_listedIds.subperm hsub).perm_of_length_le hlen.le
    exact hperm.mem_iff.mpr (List.mem_dedup.mpr (List.mem_map_of_mem hrow))
  · intro hall
    apply List.Perm.length_eq
    rw [List.perm_ext_iff_of_nodup (List.nodup_dedup _) nodup_listedIds]
    intro r
    refine ⟨fun hr => ?_, fun hr => hsub hr⟩
    obtain ⟨row, hrow, rfl⟩ := List.mem_map.mp (List.mem_dedup.mp hr)
    exact hall row hrow

omit [Py] in
theorem setting_paused_eq_zero (h : ∀ row ∈ rows, statusChange row.parsed ≠ some .paused) (r : String) :
    setting .paused (runLog rows r) = 0 := by
  rw [setting, List.countP_eq_zero]
  intro p hp
  obtain ⟨row, hrow, rfl⟩ := List.mem_map.mp hp
  simpa using h row (mem_runRowsOf.mp hrow).1

/-- A run that was never paused is not paused. -/
theorem withStatus_paused (h : ∀ row ∈ rows, statusChange row.parsed ≠ some .paused) :
    withStatus rows .paused = 0 := by
  rw [withStatus, List.countP_eq_zero]
  intro r _ hr
  have hpos := setting_pos_of_statusOf (statusOf_of_foldedStatus (of_decide_eq_true hr)) (by decide)
  rw [setting_paused_eq_zero h r] at hpos
  omega

/-- For a run that can be folded the folded status is the one of its log. -/
theorem foldedStatus_eq_iff (h : (foldedStatus rows r).isSome = true) {st : RunStatus} :
    foldedStatus rows r = some st ↔ statusOf (runLog rows r) = st := by
  obtain ⟨st', hst'⟩ := Option.isSome_iff_exists.mp h
  rw [hst', Option.some.injEq, statusOf_of_foldedStatus hst']

/-- **Every run ends once** when the rows that set an end stand for the runs with that status. -/
theorem endsLast_iff_counts (hall : ∀ row ∈ rows, row.runId ∈ listedIds rows)
    (hfolds : ∀ r ∈ listedIds rows, (foldedStatus rows r).isSome = true) :
    (∀ r ∈ listedIds rows, EndsLast (runLog rows r)) ↔
      (rows.countP fun row => statusChange row.parsed = some .completed) = withStatus rows .completed ∧
        (rows.countP fun row => statusChange row.parsed = some .failed) = withStatus rows .failed := by
  rw [countP_eq_withStatus_iff hall rfl, countP_eq_withStatus_iff hall rfl]
  constructor
  · intro h
    constructor
    all_goals
      intro r hr
      rw [endsLast_iff_setting.mp (h r hr) _ rfl]
      simp only [foldedStatus_eq_iff (hfolds r hr)]
  · rintro ⟨hcompleted, hfailed⟩ r hr
    rw [endsLast_iff_setting]
    intro st hst
    cases st with
    | completed =>
        rw [hcompleted r hr]
        simp only [foldedStatus_eq_iff (hfolds r hr)]
    | failed =>
        rw [hfailed r hr]
        simp only [foldedStatus_eq_iff (hfolds r hr)]
    | running | paused => cases hst

/-- **The dashboard counts runs** exactly when every stream is a run that can be folded, no run was ever
paused, and nothing moves the status of a run after its end: for a window that covers all events, the
total is the number of listed runs and the other numbers are those of the listed runs with each status. -/
theorem dashboard_counts_runs_iff (rows : List ParsedRow) (now : ℕ) (since til : Option ℕ)
    (hwindow : ∀ row ∈ rows, since.getD 0 ≤ row.createdAt ∧ row.createdAt ≤ windowEnd now til) :
    CountsRuns (getDashboard now since til rows) rows ↔ RunsEndOnce rows := by
  have hall : inWindow (since.getD 0) (windowEnd now til) rows = rows := by
    rw [inWindow, List.filter_eq_self]
    intro row hrow
    simpa using hwindow row hrow
  have hanswer : getDashboard now since til rows =
      { totalRuns := ((rows.map (·.runId)).dedup).length
        runningRuns := ((rows.map (·.runId)).dedup).length - rowCount rows .run "completed" -
          rowCount rows .run "failed"
        pausedRuns := rowCount rows .run "paused"
        completedRuns := rowCount rows .run "completed"
        failedRuns := rowCount rows .run "failed"
        totalEvents := rows.length
        totalToolCalls := rowCount rows .tool "called"
        totalToolFailures := rowCount rows .tool "failed" + rowCount rows .tool "timeout"
        totalGuardrailTriggers := rowCount rows .tool "blocked" } := by
    rw [getDashboard, hall]
  rw [hanswer, rowCount_completed, rowCount_failed, rowCount_paused]
  have hsum := @withStatus_sum rows _
  constructor
  · rintro ⟨htotal, hcompleted, hfailed, hpaused, hrunning, hadd⟩
    simp only at htotal hcompleted hfailed hpaused hrunning hadd
    have hlisted := distinct_eq_listed_iff.mp htotal
    have hfolds : ∀ r ∈ listedIds rows, (foldedStatus rows r).isSome = true := by
      rw [← List.countP_eq_length]
      omega
    refine ⟨hlisted, hfolds, fun row hrow hset => ?_, (endsLast_iff_counts hlisted hfolds).mpr
      ⟨hcompleted, hfailed⟩⟩
    -- the paused runs are among the running ones, so there is none
    have hpos : 1 ≤ rows.countP fun row => statusChange row.parsed = some .paused :=
      List.countP_pos_iff.mpr ⟨row, hrow, decide_eq_true hset⟩
    omega
  · rintro ⟨hlisted, hfolds, hnever, hends⟩
    obtain ⟨hcompleted, hfailed⟩ := (endsLast_iff_counts hlisted hfolds).mp hends
    have htotal := distinct_eq_listed_iff.mpr hlisted
    have hpaused : (rows.countP fun row => statusChange row.parsed = some .paused) = 0 := by
      rw [List.countP_eq_zero]
      intro row hrow
      simpa using hnever row hrow
    have hnone := withStatus_paused hnever
    rw [List.countP_eq_length.mpr hfolds] at hsum
    refine ⟨htotal, hcompleted, hfailed, ?_, ?_, ?_⟩
    all_goals
      simp only
      omega

end rows

/-! ### A conversation and a run -/

section sample

attribute [local instance] asciiPy

/-- A row as `append_event` writes it, with its payload parsed. -/
def startedRow : ParsedRow where
  runId := "run_1"
  seq := 1
  eventType := .run
  payload := [("phase", .str "started"), ("intent", .str "list the files")]
  createdAt := 3
  parsed := .runStarted { intent := "list the files" }
  eventType_eq := rfl
  phase_eq := rfl

def completedRow : ParsedRow where
  runId := "run_1"
  seq := 2
  eventType := .run
  payload := [("phase", .str "completed"), ("result_summary", .str "two files")]
  createdAt := 5
  parsed := .runCompleted { resultSummary := "two files" }
  eventType_eq := rfl
  phase_eq := rfl

/-- One run that completes is counted as such. -/
theorem one_completed_run_counted :
    (∀ row ∈ [startedRow, completedRow], (none : Option ℕ).getD 0 ≤ row.createdAt ∧
      row.createdAt ≤ windowEnd 9 none) ∧ RunsEndOnce [startedRow, completedRow] := by
  have hwindow : ∀ row ∈ [startedRow, completedRow], (none : Option ℕ).getD 0 ≤ row.createdAt ∧
      row.createdAt ≤ windowEnd 9 none := by decide
  have hlisted : listedIds [startedRow, completedRow] = ["run_1"] := by decide +kernel
  have hrows : runRowsOf [startedRow, completedRow] "run_1" = [startedRow, completedRow] :=
    List.mergeSort_of_pairwise (by decide)
  have hstatus : foldedStatus [startedRow, completedRow] "run_1" = some .completed := by
    rw [foldedStatus, hrows]
    rfl
  refine ⟨hwindow, (dashboard_counts_runs_iff _ 9 none none hwindow).mp ?_⟩
  constructor
  all_goals
    first
    | decide +kernel
    | rw [withStatus, hlisted, List.countP_singleton, hstatus]
      decide +kernel

/-- The event that starts a conversation. -/
def conversationDraft : EventDraft :=
  { runId := "conv_1"
    eventType := .conversation
    payload := [("phase", .str "started"), ("conversation_id", .str "conv_1"), ("title", .str "files")] }

def conversationRow : ParsedRow where
  runId := "conv_1"
  seq := 1
  eventType := .conversation
  payload := [("phase", .str "started"), ("conversation_id", .str "conv_1"), ("title", .str "files")]
  conversationId := some "conv_1"
  createdAt := 3
  parsed := .conversation "started"
  eventType_eq := rfl
  phase_eq := rfl

/-- **A conversation counts as a running run**: its first event is all there is, no run is listed, and the
dashboard shows one run, which is running. -/
theorem conversation_counts_as_run :
    (tablesOf [conversationRow]).events = (({} : TenantDb).appendEvent conversationDraft 3).1.events ∧
      listedIds [conversationRow] = [] ∧
      (getDashboard 9 none none [conversationRow]).totalRuns = 1 ∧
      (getDashboard 9 none none [conversationRow]).runningRuns = 1 ∧
      ¬CountsRuns (getDashboard 9 none none [conversationRow]) [conversationRow] := by
  have hlisted : listedIds [conversationRow] = [] := by decide +kernel
  have htotal : (getDashboard 9 none none [conversationRow]).totalRuns = 1 := by decide +kernel
  refine ⟨by decide +kernel, hlisted, htotal, by decide +kernel, fun h => ?_⟩
  have hcount := h.total
  rw [htotal, hlisted] at hcount
  cases hcount

end sample

end JAgent
