import JAgent.Lib.Keyed
import JAgent.Core.Status
import JAgent.Tools.Lifecycle

/-! # The traces of tool calls

`get_run_tool_traces` makes one pass over the events of a run, in which the events of parallel calls are
interleaved, and answers with one trace for each call: what was called, what came of it and whether trying
again makes sense.  A result that no call is known for is passed over, a call that is repeated under its id
starts the entry anew, and a call that a guardrail stopped before it was recorded gets a trace of its own.

A trace is what the events of its own id say (`tool_traces`).  Over the Tool Layer this makes the traces an
account of the calls: in every run in which each call has an id of its own and loses no result, a trace is
without a result exactly as long as the tool function is running (`trace_follows_call`). -/

namespace JAgent

/-! ### The answer -/

structure RetryableInfo where
  eligible : Bool
  ineligibleReason : Option String := none
  suggestedBackoffMs : Option ℕ := none
  requiresInputModification : Bool := false
deriving DecidableEq

structure ToolTraceItem where
  toolCallId : String
  toolName : String
  calledSeq : Option ℕ := none
  input : Option Obj := none
  idempotencyKey : Option String := none
  status : String := "unknown"
  completedSeq : Option ℕ := none
  output : Value := .null
  error : Option String := none
  guardrailId : Option String := none
  guardrailReason : Option String := none
  retryable : RetryableInfo
deriving DecidableEq

/-- An entry of `calls`. -/
structure CallEntry where
  toolName : String
  calledSeq : ℕ
  input : Obj
  idempotencyKey : Option String
  status : String := "unknown"
  completedSeq : Option ℕ := none
  output : Value := .null
  error : Option String := none
deriving DecidableEq

/-- An entry of `guardrails`. -/
structure BlockEntry where
  toolName : String
  calledSeq : ℕ
  guardrailId : String
  guardrailReason : String
deriving DecidableEq

/-- `calls` and `guardrails`, by the id of the call. -/
structure TraceTables where
  calls : Lib.Dict String CallEntry := .empty
  guardrails : Lib.Dict String BlockEntry := .empty

namespace TraceTables
variable (s : TraceTables)

/-- The entry of a call when it is recorded. -/
def openEntry (e : LogEvent) (p : ToolCalledPayload) : CallEntry :=
  { toolName := p.toolName, calledSeq := e.seq, input := p.input, idempotencyKey := p.idempotencyKey }

/-- `entry.update(…)`. -/
def answer (e : LogEvent) (entry : CallEntry) : CallEntry :=
  match e.payload with
  | .toolCompleted p => { entry with status := "completed", completedSeq := some e.seq, output := p.output }
  | .toolFailed _ _ error _ _ =>
      { entry with status := "failed", completedSeq := some e.seq, error := some error }
  | .toolTimeout _ _ timeoutMs _ =>
      { entry with status := "timeout", completedSeq := some e.seq
                   error := some ("Timeout after " ++ toString timeoutMs ++ "ms") }
  | _ => entry

/-- The result of a call that is known; another one is passed over. -/
def update (tid : String) (e : LogEvent) : TraceTables :=
  match s.calls.get? tid with
  | none => s
  | some entry => { s with calls := s.calls.set tid (answer e entry) }

/-- The body of the loop over the events. -/
def note (e : LogEvent) : TraceTables :=
  match e.payload with
  | .toolCalled p => { s with calls := s.calls.set p.toolCallId (openEntry e p) }
  | .toolCompleted p => s.update p.toolCallId e
  | .toolFailed toolCallId .. | .toolTimeout toolCallId .. => s.update toolCallId e
  | .guardrailTriggered toolCallId toolName guardrailId reason _ _ =>
      { s with guardrails := s.guardrails.set toolCallId ⟨toolName, e.seq, guardrailId, reason⟩ }
  | _ => s

end TraceTables

/-- `_build_retryable`. -/
def buildRetryable (status : String) : RetryableInfo :=
  if status = "completed" then { eligible := false, ineligibleReason := some "already succeeded" }
  else if status = "failed" then { eligible := true, suggestedBackoffMs := some 1000 }
  else if status = "timeout" then { eligible := true, suggestedBackoffMs := some 5000 }
  else if status = "guardrail_blocked" then { eligible := true, requiresInputModification := true }
  else { eligible := false, ineligibleReason := some ("cannot retry status: " ++ status) }

/-- The trace of a call, with what stopped it if a guardrail did. -/
def callTrace (tid : String) (c : CallEntry) (g : Option BlockEntry) : ToolTraceItem :=
  let status := if g.isSome && c.status = "unknown" then "guardrail_blocked" else c.status
  let retryable := buildRetryable status
  { toolCallId := tid
    toolName := c.toolName
    calledSeq := some c.calledSeq
    input := some c.input
    idempotencyKey := c.idempotencyKey
    status
    completedSeq := c.completedSeq
    output := c.output
    error := c.error
    guardrailId := g.map (·.guardrailId)
    guardrailReason := g.map (·.guardrailReason)
    retryable := if g.isSome && (status = "failed" || status = "timeout")
      then { retryable with requiresInputModification := true } else retryable }

/-- The trace of a call that was stopped before it was recorded. -/
def blockTrace (gid : String) (g : BlockEntry) : ToolTraceItem :=
  { toolCallId := gid
    toolName := g.toolName
    calledSeq := some g.calledSeq
    status := "guardrail_blocked"
    guardrailId := some g.guardrailId
    guardrailReason := some g.guardrailReason
    retryable := buildRetryable "guardrail_blocked" }

/-- The tables after the loop. -/
def traceTables (events : List LogEvent) : TraceTables := events.foldl TraceTables.note {}

/-- `get_run_tool_traces`. -/
def getRunToolTraces (events : List LogEvent) : List ToolTraceItem :=
  let t := traceTables events
  (t.calls.items.map fun (tid, c) => callTrace tid c (t.guardrails.get? tid)) ++
    (t.guardrails.items.filter fun (gid, _) => gid ∉ t.calls.keys).map fun (gid, g) => blockTrace gid g

/-! ### What the events of a call say -/

/-- The id of the call that a guardrail stopped. -/
def Payload.blockedId : Payload → Option String
  | .guardrailTriggered toolCallId .. => some toolCallId
  | _ => none

/-- The status that a result gives its call. -/
def Payload.outcome : Payload → Option String
  | .toolCompleted _ => some "completed"
  | .toolFailed .. => some "failed"
  | .toolTimeout .. => some "timeout"
  | _ => none

/-- The output that a result has. -/
def Payload.resultOutput : Payload → Option Value
  | .toolCompleted p => some p.output
  | _ => none

/-- The error that a result has. -/
def Payload.resultError : Payload → Option String
  | .toolFailed _ _ error _ _ => some error
  | .toolTimeout _ _ timeoutMs _ => some ("Timeout after " ++ toString timeoutMs ++ "ms")
  | _ => none

/-- The results with an id. -/
def resultsOf (events : List LogEvent) (id : String) : List LogEvent :=
  Lib.Keyed.own (fun e : LogEvent => e.payload.resultId) events id

/-- The stops with an id. -/
def blocksOf (events : List LogEvent) (id : String) : List LogEvent :=
  Lib.Keyed.own (fun e : LogEvent => e.payload.blockedId) events id

/-- The guardrail and its reason. -/
def Payload.stoppedBy : Payload → Option (String × String)
  | .guardrailTriggered _ _ guardrailId reason _ _ => some (guardrailId, reason)
  | _ => none

/-- The status of a call with these results, given whether a guardrail stopped a call with its id. -/
def shownStatus (results : List LogEvent) (blocked : Bool) : String :=
  match results.getLast?.bind (·.payload.outcome) with
  | some status => status
  | none => if blocked then "guardrail_blocked" else "unknown"

/-- The trace tells of the call that `e` opened and of its results: the status and the moment of the last
one, the last output and the last error, and the last guardrail that stopped a call with this id. -/
structure ToolTraceItem.TellsOf (t : ToolTraceItem) (e : LogEvent) (p : ToolCalledPayload)
    (results blocks : List LogEvent) : Prop where
  toolName : t.toolName = p.toolName
  calledSeq : t.calledSeq = some e.seq
  input : t.input = some p.input
  idempotencyKey : t.idempotencyKey = p.idempotencyKey
  status : t.status = shownStatus results (!blocks.isEmpty)
  completedSeq : t.completedSeq = results.getLast?.map (·.seq)
  output : t.output = ((results.filterMap (·.payload.resultOutput)).getLast?).getD .null
  error : t.error = (results.filterMap (·.payload.resultError)).getLast?
  guardrail : (t.guardrailId, t.guardrailReason) =
    ((blocks.getLast?.bind (·.payload.stoppedBy)).map Prod.fst,
      (blocks.getLast?.bind (·.payload.stoppedBy)).map Prod.snd)
  eligible : t.retryable.eligible = decide (t.status ≠ "completed" ∧ t.status ≠ "unknown")
  modify : t.retryable.requiresInputModification = (!blocks.isEmpty && decide (t.status ≠ "completed"))

/-- The trace tells of a call that was stopped before it was recorded. -/
structure ToolTraceItem.TellsOfStop (t : ToolTraceItem) (blocks : List LogEvent) : Prop where
  status : t.status = "guardrail_blocked"
  input : t.input = none
  completedSeq : t.completedSeq = none
  calledSeq : t.calledSeq = blocks.getLast?.map (·.seq)
  guardrail : (t.guardrailId, t.guardrailReason) =
    ((blocks.getLast?.bind (·.payload.stoppedBy)).map Prod.fst,
      (blocks.getLast?.bind (·.payload.stoppedBy)).map Prod.snd)
  modify : t.retryable = { eligible := true, requiresInputModification := true }

/-! ### The pass over the events -/

namespace TraceTables

/-- The id under which an event is entered in `calls`. -/
def callKey (e : LogEvent) : Option String := e.payload.calledId.or e.payload.resultId

/-- What an event makes of the entry of its call. -/
def nextEntry (e : LogEvent) (entry : Option CallEntry) : Option CallEntry :=
  match e.payload with
  | .toolCalled p => some (openEntry e p)
  | _ => entry.map (answer e)

/-- What an event makes of the entry of the guardrail. -/
def nextBlock (e : LogEvent) (entry : Option BlockEntry) : Option BlockEntry :=
  match e.payload with
  | .guardrailTriggered _ toolName guardrailId reason _ _ => some ⟨toolName, e.seq, guardrailId, reason⟩
  | _ => entry

theorem get?_update (s : TraceTables) (tid : String) (e : LogEvent) (k : String) :
    (s.update tid e).calls.get? k =
      if tid = k then (s.calls.get? k).map (answer e) else s.calls.get? k := by
  rw [update]
  cases h : s.calls.get? tid with
  | none =>
      by_cases hk : tid = k
      · subst hk
        rw [if_pos rfl, h]
        rfl
      · rw [if_neg hk]
  | some entry =>
      by_cases hk : tid = k
      · subst hk
        simp only [Lib.Dict.get?_set, if_pos, h, Option.map_some]
      · simp only [Lib.Dict.get?_set, if_neg hk]

theorem guardrails_update (s : TraceTables) (tid : String) (e : LogEvent) :
    (s.update tid e).guardrails = s.guardrails := by
  rw [update]
  cases s.calls.get? tid <;> rfl

/-- An event changes the entry of its call only. -/
theorem calls_note : Lib.Keyed.Local note (fun s k => s.calls.get? k) callKey nextEntry := by
  intro s e k
  obtain ⟨r, n, p⟩ := e
  cases p with
  | toolCalled p => simp [note, callKey, nextEntry, Payload.calledId]
  | toolCompleted p => simp [note, callKey, nextEntry, Payload.calledId, Payload.resultId, get?_update]
  | toolFailed => simp [note, callKey, nextEntry, Payload.calledId, Payload.resultId, get?_update]
  | toolTimeout => simp [note, callKey, nextEntry, Payload.calledId, Payload.resultId, get?_update]
  | _ => simp [note, callKey, Payload.calledId, Payload.resultId]

/-- An event changes the entry of the guardrail of its call only. -/
theorem guardrails_note :
    Lib.Keyed.Local note (fun s k => s.guardrails.get? k) (fun e => e.payload.blockedId) nextBlock := by
  intro s e k
  obtain ⟨r, n, p⟩ := e
  cases p with
  | guardrailTriggered => simp [note, nextBlock, Payload.blockedId]
  | toolCompleted p => simp [note, Payload.blockedId, guardrails_update]
  | toolFailed => simp [note, Payload.blockedId, guardrails_update]
  | toolTimeout => simp [note, Payload.blockedId, guardrails_update]
  | _ => simp [note, Payload.blockedId]

/-! ### The entry of a call -/

theorem resultId_of_calledId {p : Payload} {id : String} (h : p.calledId = some id) : p.resultId = none := by
  cases p <;> first | rfl | cases h

theorem calledId_of_resultId {p : Payload} {id : String} (h : p.resultId = some id) : p.calledId = none := by
  cases p <;> first | rfl | cases h

/-- Only the record of a call and its results are entered under an id. -/
theorem own_callKey {events : List LogEvent} {id : String}
    (h : ∀ e ∈ events, e.payload.calledId ≠ some id) :
    Lib.Keyed.own callKey events id = resultsOf events id := by
  apply List.filter_congr
  intro e he
  have hne := h e he
  congr 1
  rw [callKey]
  cases hid : e.payload.calledId with
  | none => rfl
  | some id' =>
      rw [hid] at hne
      have hnone := resultId_of_calledId hid
      simp only [hnone, Option.some_or, hne, reduceCtorEq]

theorem outcome_of_resultId {p : Payload} {id : String} (h : p.resultId = some id) : p.outcome ≠ none := by
  cases p <;> first | exact Option.some_ne_none _ | cases h

/-- What a result makes of the entry. -/
theorem answer_eq {e : LogEvent} {status : String} (h : e.payload.outcome = some status) (c : CallEntry) :
    answer e c =
      { c with status, completedSeq := some e.seq
               output := e.payload.resultOutput.getD c.output
               error := e.payload.resultError.or c.error } := by
  obtain ⟨r, n, p⟩ := e
  cases p <;> cases h <;> rfl

/-- What several results make of the entry: the last one counts, and the last with an output or an error
for these. -/
theorem foldl_answer {results : List LogEvent} (h : ∀ e ∈ results, e.payload.outcome ≠ none)
    (c : CallEntry) :
    results.foldl (fun c e => answer e c) c =
      { c with status := (results.getLast?.bind (·.payload.outcome)).getD c.status
               completedSeq := (results.getLast?.map (·.seq)).or c.completedSeq
               output := ((results.filterMap (·.payload.resultOutput)).getLast?).getD c.output
               error := ((results.filterMap (·.payload.resultError)).getLast?).or c.error } := by
  induction results using List.reverseRecOn with
  | nil => rfl
  | append_singleton results e ih =>
      obtain ⟨status, hstatus⟩ := Option.ne_none_iff_exists'.mp (h e (by simp))
      have ih := ih fun e' he' => h e' (List.mem_append_left _ he')
      rw [List.foldl_append, List.foldl_cons, List.foldl_nil, ih, answer_eq hstatus, List.getLast?_concat,
        List.filterMap_append, List.filterMap_append]
      cases houtput : e.payload.resultOutput <;> cases herror : e.payload.resultError <;>
        simp [hstatus, houtput, herror]

/-- An entry that is there stays, and changes by the results. -/
theorem foldl_nextEntry {events : List LogEvent} (h : ∀ e ∈ events, e.payload.calledId = none)
    (c : CallEntry) :
    events.foldl (fun entry e => nextEntry e entry) (some c) =
      some (events.foldl (fun c e => answer e c) c) := by
  induction events generalizing c with
  | nil => rfl
  | cons e events ih =>
      rw [List.forall_mem_cons] at h
      have hnext : nextEntry e (some c) = some (answer e c) := by
        rw [nextEntry]
        cases hp : e.payload with
        | toolCalled p =>
            rw [hp] at h
            cases h.1
        | _ => rfl
      rw [List.foldl_cons, hnext, ih h.2, List.foldl_cons]

/-- The entry of a call is what its results make of it since it was recorded last. -/
theorem entry_of_call {events pre post : List LogEvent} {e : LogEvent} {p : ToolCalledPayload}
    (hevents : events = pre ++ e :: post) (hp : e.payload = .toolCalled p)
    (hpost : ∀ e' ∈ post, e'.payload.calledId ≠ some p.toolCallId) :
    (traceTables events).calls.get? p.toolCallId =
      some ((resultsOf post p.toolCallId).foldl (fun c e => answer e c) (openEntry e p)) := by
  have hkey : callKey e = some p.toolCallId := by
    rw [callKey, hp]
    rfl
  have hopen : ∀ entry, nextEntry e entry = some (openEntry e p) := by
    intro entry
    rw [nextEntry, hp]
  have hown : Lib.Keyed.own callKey (e :: post) p.toolCallId = e :: resultsOf post p.toolCallId := by
    rw [← own_callKey hpost]
    exact List.filter_cons_of_pos (decide_eq_true hkey)
  rw [traceTables, Lib.Keyed.look_foldl calls_note, hevents, Lib.Keyed.own_append, hown, List.foldl_append,
    List.foldl_cons, hopen]
  apply foldl_nextEntry
  intro e' he'
  exact calledId_of_resultId (Lib.Keyed.mem_own.mp he').2

/-- A call has an entry once it is recorded. -/
theorem get?_calls_isSome (events : List LogEvent) (id : String) :
    ((traceTables events).calls.get? id).isSome = true ↔ ∃ e ∈ events, e.payload.calledId = some id := by
  have hopens : ∀ e entry, (nextEntry e entry).isSome = (entry.isSome || e.payload.calledId.isSome) := by
    intro e entry
    rw [nextEntry]
    cases e.payload <;> simp [Payload.calledId]
  rw [traceTables, Lib.Keyed.look_foldl calls_note, Lib.Keyed.foldl_isSome hopens]
  rw [Lib.Dict.get?_empty, Option.isSome_none, Bool.false_or, List.any_eq_true]
  constructor
  · rintro ⟨e, he, hsome⟩
    obtain ⟨he, hkey⟩ := Lib.Keyed.mem_own.mp he
    obtain ⟨id', hid⟩ := Option.isSome_iff_exists.mp hsome
    rw [callKey, hid, Option.some_or] at hkey
    exact ⟨e, he, hid.trans hkey⟩
  · rintro ⟨e, he, hid⟩
    refine ⟨e, Lib.Keyed.mem_own.mpr ⟨he, ?_⟩, ?_⟩
    · rw [callKey, hid, Option.some_or]
    · rw [hid, Option.isSome_some]

/-- The entry of the guardrail is that of the last stop. -/
theorem get?_guardrails (events : List LogEvent) (id : String) :
    (traceTables events).guardrails.get? id =
      (blocksOf events id).getLast?.bind fun e => nextBlock e none := by
  have hblocks : ∀ e ∈ blocksOf events id, e.payload.blockedId = some id :=
    fun e he => (Lib.Keyed.mem_own.mp he).2
  rw [traceTables, Lib.Keyed.look_foldl guardrails_note]
  change (blocksOf events id).foldl _ _ = _
  generalize blocksOf events id = blocks at hblocks
  induction blocks using List.reverseRecOn with
  | nil => rfl
  | append_singleton blocks e ih =>
      rw [List.foldl_append, List.foldl_cons, List.foldl_nil, List.getLast?_concat, Option.bind_some]
      have hid := hblocks e (by simp)
      rw [nextBlock, nextBlock]
      cases hp : e.payload with
      | guardrailTriggered => rfl
      | _ =>
          rw [hp] at hid
          cases hid

end TraceTables

/-! ### The traces -/

section traces
open TraceTables
variable {events : List LogEvent} {t : ToolTraceItem}

theorem mem_getRunToolTraces : t ∈ getRunToolTraces events ↔
    (∃ c, (traceTables events).calls.get? t.toolCallId = some c ∧
      t = callTrace t.toolCallId c ((traceTables events).guardrails.get? t.toolCallId)) ∨
    ((traceTables events).calls.get? t.toolCallId = none ∧
      ∃ g, (traceTables events).guardrails.get? t.toolCallId = some g ∧ t = blockTrace t.toolCallId g) := by
  rw [getRunToolTraces, List.mem_append, List.mem_map, List.mem_map]
  constructor
  · rintro (⟨⟨tid, c⟩, hc, rfl⟩ | ⟨⟨gid, g⟩, hg, rfl⟩)
    · exact .inl ⟨c, Lib.Dict.mem_items_iff.mp hc, rfl⟩
    · obtain ⟨hg, hnot⟩ := List.mem_filter.mp hg
      refine .inr ⟨Lib.Dict.get?_eq_none_iff.mpr (of_decide_eq_true hnot), g, ?_, rfl⟩
      exact Lib.Dict.mem_items_iff.mp hg
  · rintro (⟨c, hc, ht⟩ | ⟨hnot, g, hg, ht⟩)
    · exact .inl ⟨(t.toolCallId, c), Lib.Dict.mem_items_iff.mpr hc, ht.symm⟩
    · refine .inr ⟨(t.toolCallId, g), List.mem_filter.mpr ⟨Lib.Dict.mem_items_iff.mpr hg, ?_⟩, ht.symm⟩
      exact decide_eq_true (Lib.Dict.get?_eq_none_iff.mp hnot)

/-- Every id has one trace. -/
theorem nodup_traces (events : List LogEvent) : ((getRunToolTraces events).map (·.toolCallId)).Nodup := by
  have hcalls : ((traceTables events).calls.items.map fun (tid, c) =>
      callTrace tid c ((traceTables events).guardrails.get? tid)).map (·.toolCallId) =
        (traceTables events).calls.keys := List.map_map
  have hstops : (((traceTables events).guardrails.items.filter fun (gid, _) =>
      gid ∉ (traceTables events).calls.keys).map fun (gid, g) => blockTrace gid g).map (·.toolCallId) =
        ((traceTables events).guardrails.items.filter fun (gid, _) =>
          gid ∉ (traceTables events).calls.keys).map Prod.fst := List.map_map
  rw [getRunToolTraces, List.map_append, hcalls, hstops, List.nodup_append]
  refine ⟨(traceTables events).calls.nodup, ?_, ?_⟩
  · exact (List.filter_sublist.map _).nodup (traceTables events).guardrails.nodup
  · rintro id hid _ hstop rfl
    obtain ⟨⟨gid, g⟩, hg, rfl⟩ := List.mem_map.mp hstop
    exact of_decide_eq_true (List.mem_filter.mp hg).2 hid

theorem get?_guardrails_isSome (id : String) :
    ((traceTables events).guardrails.get? id).isSome = !(blocksOf events id).isEmpty := by
  rw [get?_guardrails]
  cases hlast : (blocksOf events id).getLast? with
  | none =>
      rw [List.getLast?_eq_none_iff.mp hlast]
      rfl
  | some e =>
      have hmem := List.mem_of_getLast? hlast
      have hid := (Lib.Keyed.mem_own.mp hmem).2
      have hne : (blocksOf events id).isEmpty = false := by
        rw [List.isEmpty_eq_false_iff_exists_mem]
        exact ⟨e, hmem⟩
      rw [hne, Option.bind_some, nextBlock]
      cases hp : e.payload with
      | guardrailTriggered => rfl
      | _ =>
          rw [hp] at hid
          cases hid

/-- The guardrail of an id and its reason are those of the last stop. -/
theorem guardrail_eq (id : String) :
    ((traceTables events).guardrails.get? id).map (fun g => (g.guardrailId, g.guardrailReason)) =
      (blocksOf events id).getLast?.bind (·.payload.stoppedBy) := by
  rw [get?_guardrails]
  cases (blocksOf events id).getLast? with
  | none => rfl
  | some e =>
      rw [Option.bind_some, Option.bind_some, nextBlock]
      cases e.payload <;> rfl

theorem outcome_cases {p : Payload} {status : String} (h : p.outcome = some status) :
    status = "completed" ∨ status = "failed" ∨ status = "timeout" := by
  cases p with
  | toolCompleted => exact .inl (Option.some.inj h).symm
  | toolFailed => exact .inr (.inl (Option.some.inj h).symm)
  | toolTimeout => exact .inr (.inr (Option.some.inj h).symm)
  | _ => cases h

/-- The advice follows the status: what failed or was stopped may be tried again, and with another input if
a guardrail stopped it. -/
theorem retryable_callTrace {tid : String} {c : CallEntry} {g : Option BlockEntry}
    (h : c.status = "unknown" ∨ c.status = "completed" ∨ c.status = "failed" ∨ c.status = "timeout") :
    (callTrace tid c g).retryable.eligible =
        decide ((callTrace tid c g).status ≠ "completed" ∧ (callTrace tid c g).status ≠ "unknown") ∧
      (callTrace tid c g).retryable.requiresInputModification =
        (g.isSome && decide ((callTrace tid c g).status ≠ "completed")) := by
  obtain h | h | h | h := h
  all_goals
    cases g <;> simp [callTrace, h, buildRetryable]

/-- **A trace tells of its call.** -/
theorem tellsOf_of_mem {pre post : List LogEvent} {e : LogEvent} {p : ToolCalledPayload}
    (ht : t ∈ getRunToolTraces events) (hevents : events = pre ++ e :: post) (hp : e.payload = .toolCalled p)
    (hid : p.toolCallId = t.toolCallId) (hpost : ∀ e' ∈ post, e'.payload.calledId ≠ some t.toolCallId) :
    t.TellsOf e p (resultsOf post t.toolCallId) (blocksOf events t.toolCallId) := by
  rw [← hid] at hpost
  have hentry := entry_of_call hevents hp hpost
  have hresults : ∀ r ∈ resultsOf post p.toolCallId, r.payload.outcome ≠ none :=
    fun r hr => outcome_of_resultId (Lib.Keyed.mem_own.mp hr).2
  rw [foldl_answer hresults, hid] at hentry
  obtain ⟨c, hc, htrace⟩ | ⟨hnone, -⟩ := mem_getRunToolTraces.mp ht
  · rw [hentry] at hc
    have hsome := @get?_guardrails_isSome events t.toolCallId
    have hguard := @guardrail_eq events t.toolCallId
    generalize (traceTables events).guardrails.get? t.toolCallId = g at htrace hsome hguard
    generalize resultsOf post t.toolCallId = results at hc
    have hstatus : c.status = "unknown" ∧ results.getLast?.bind (·.payload.outcome) = none ∨
        ∃ status, c.status = status ∧ results.getLast?.bind (·.payload.outcome) = some status ∧
          (status = "completed" ∨ status = "failed" ∨ status = "timeout") := by
      rw [← Option.some.inj hc]
      cases hlast : results.getLast?.bind (·.payload.outcome) with
      | none => exact .inl ⟨rfl, rfl⟩
      | some status =>
          obtain ⟨r, -, hr⟩ := Option.bind_eq_some_iff.mp hlast
          exact .inr ⟨status, rfl, rfl, outcome_cases hr⟩
    have hadvice := @retryable_callTrace t.toolCallId c g (by
      obtain ⟨h, -⟩ | ⟨status, h, -, hcases⟩ := hstatus
      · exact .inl h
      · exact .inr (h ▸ hcases))
    rw [← htrace, hsome] at hadvice
    refine ⟨?_, ?_, ?_, ?_, ?_, ?_, ?_, ?_, ?_, hadvice.1, hadvice.2⟩
    · rw [htrace, ← Option.some.inj hc]
      rfl
    · rw [htrace, ← Option.some.inj hc]
      rfl
    · rw [htrace, ← Option.some.inj hc]
      rfl
    · rw [htrace, ← Option.some.inj hc]
      rfl
    · rw [shownStatus, ← hsome]
      obtain ⟨h, hlast⟩ | ⟨status, h, hlast, hcases⟩ := hstatus
      · rw [hlast, htrace, callTrace, h]
        simp
      · rw [hlast, htrace, callTrace, h]
        have hne : status ≠ "unknown" := by
          rintro rfl
          revert hcases
          decide
        simp [hne]
    · rw [htrace, ← Option.some.inj hc]
      simp [callTrace, openEntry]
    · rw [htrace, ← Option.some.inj hc]
      rfl
    · rw [htrace, ← Option.some.inj hc]
      simp [callTrace, openEntry]
    · rw [← hguard, htrace]
      cases g <;> rfl
  · rw [hentry] at hnone
    cases hnone

/-- A trace without a recorded call tells of what stopped it. -/
theorem tellsOfStop_of_mem (ht : t ∈ getRunToolTraces events)
    (hnone : (traceTables events).calls.get? t.toolCallId = none) :
    t.TellsOfStop (blocksOf events t.toolCallId) := by
  obtain ⟨c, hc, -⟩ | ⟨-, g, hg, htrace⟩ := mem_getRunToolTraces.mp ht
  · rw [hc] at hnone
    cases hnone
  · have hguard := @guardrail_eq events t.toolCallId
    have hentry := get?_guardrails events t.toolCallId
    rw [hg] at hguard hentry
    obtain ⟨e, he, hg⟩ := Option.bind_eq_some_iff.mp hentry.symm
    have hseq : g.calledSeq = e.seq := by
      rw [nextBlock] at hg
      split at hg
      · rw [← Option.some.inj hg]
      · cases hg
    refine ⟨?_, ?_, ?_, ?_, ?_, ?_⟩
    · rw [htrace, blockTrace]
    · rw [htrace, blockTrace]
    · rw [htrace, blockTrace]
    · rw [htrace, blockTrace, he, Option.map_some, hseq]
    · rw [← hguard, htrace]
      rfl
    · rw [htrace]
      rfl

theorem mem_traceIds (id : String) : id ∈ (getRunToolTraces events).map (·.toolCallId) ↔
    ((traceTables events).calls.get? id).isSome = true ∨
      ((traceTables events).guardrails.get? id).isSome = true := by
  rw [List.mem_map]
  constructor
  · rintro ⟨t, ht, rfl⟩
    obtain ⟨c, hc, -⟩ | ⟨-, g, hg, -⟩ := mem_getRunToolTraces.mp ht
    · exact .inl (Option.isSome_iff_exists.mpr ⟨c, hc⟩)
    · exact .inr (Option.isSome_iff_exists.mpr ⟨g, hg⟩)
  · intro h
    cases hc : (traceTables events).calls.get? id with
    | some c =>
        refine ⟨callTrace id c ((traceTables events).guardrails.get? id), ?_, rfl⟩
        exact mem_getRunToolTraces.mpr (.inl ⟨c, hc, rfl⟩)
    | none =>
        rw [hc] at h
        obtain ⟨g, hg⟩ := Option.isSome_iff_exists.mp (h.resolve_left Bool.false_ne_true)
        exact ⟨blockTrace id g, mem_getRunToolTraces.mpr (.inr ⟨hc, g, hg, rfl⟩), rfl⟩

/-- **The traces of a stream**: one for each id that was called or stopped by a guardrail, however the
events of parallel calls are interleaved.  A trace tells of the last call that was recorded under its id and
of the results since then; one without a recorded call tells of the last stop. -/
theorem tool_traces (events : List LogEvent) :
    ((getRunToolTraces events).map (·.toolCallId)).Nodup ∧
      (∀ id, id ∈ (getRunToolTraces events).map (·.toolCallId) ↔
        ∃ e ∈ events, e.payload.calledId = some id ∨ e.payload.blockedId = some id) ∧
      ∀ t ∈ getRunToolTraces events,
        (∃ pre e post p, events = pre ++ e :: post ∧ e.payload = .toolCalled p ∧
            p.toolCallId = t.toolCallId ∧ (∀ e' ∈ post, e'.payload.calledId ≠ some t.toolCallId) ∧
            t.TellsOf e p (resultsOf post t.toolCallId) (blocksOf events t.toolCallId)) ∨
          ((∀ e ∈ events, e.payload.calledId ≠ some t.toolCallId) ∧
            t.TellsOfStop (blocksOf events t.toolCallId)) := by
  refine ⟨nodup_traces events, fun id => ?_, fun t ht => ?_⟩
  · rw [mem_traceIds, get?_calls_isSome, get?_guardrails_isSome, Bool.not_eq_true',
      List.isEmpty_eq_false_iff_exists_mem]
    constructor
    · rintro (⟨e, he, hid⟩ | ⟨e, he⟩)
      · exact ⟨e, he, .inl hid⟩
      · obtain ⟨he, hid⟩ := Lib.Keyed.mem_own.mp he
        exact ⟨e, he, .inr hid⟩
    · rintro ⟨e, he, hid | hid⟩
      · exact .inl ⟨e, he, hid⟩
      · exact .inr ⟨e, Lib.Keyed.mem_own.mpr ⟨he, hid⟩⟩
  · by_cases hcalled : ∃ e ∈ events, e.payload.calledId = some t.toolCallId
    · obtain ⟨pre, e, post, hevents, hid, hpost⟩ := Lib.Keyed.exists_last hcalled
      cases hp : e.payload with
      | toolCalled p =>
          rw [hp] at hid
          have hid := Option.some.inj hid
          exact .inl ⟨pre, e, post, p, hevents, hp, hid, hpost, tellsOf_of_mem ht hevents hp hid hpost⟩
      | _ =>
          rw [hp] at hid
          cases hid
    · refine .inr ⟨fun e he hid => hcalled ⟨e, he, hid⟩, tellsOfStop_of_mem ht ?_⟩
      rw [← Option.not_isSome_iff_eq_none, get?_calls_isSome]
      exact hcalled

end traces

/-! ### The traces of the Tool Layer -/

/-- The results in the events of a log are those in the log. -/
theorem payloads_resultsOf (r : String) (log : Log) (n : ℕ) (id : String) :
    (resultsOf (eventStream r n (log.map (·.payload))) id).map (·.payload) =
      (log.filter fun row => row.payload.resultId = some id).map (·.payload) := by
  induction log generalizing n with
  | nil => rfl
  | cons row log ih =>
      have ih := ih (n + 1)
      rw [resultsOf, Lib.Keyed.own] at ih ⊢
      rw [List.map_cons, eventStream, List.filter_cons, List.filter_cons]
      by_cases hid : row.payload.resultId = some id
      · simp only [hid, decide_true, if_true, List.map_cons, ih]
      · simp only [hid, decide_false, Bool.false_eq_true, if_false, ih]

theorem eventStream_append (r : String) (ps ps' : List Payload) (n : ℕ) :
    eventStream r n (ps ++ ps') = eventStream r n ps ++ eventStream r (n + ps.length) ps' := by
  induction ps generalizing n with
  | nil => rfl
  | cons p ps ih =>
      rw [List.cons_append, eventStream, ih, eventStream, List.cons_append, List.length_cons]
      congr 3
      omega

theorem payload_of_mem_eventStream {r : String} {ps : List Payload} {n : ℕ} {e : LogEvent}
    (h : e ∈ eventStream r n ps) : e.payload ∈ ps := by
  induction ps generalizing n with
  | nil => cases h
  | cons p ps ih =>
      obtain rfl | h := List.mem_cons.mp h
      · exact List.mem_cons_self
      · exact List.mem_cons_of_mem _ (ih h)

namespace ToolExecutor
variable {W : Type} [Py] (x : ToolExecutor W)

/-- **A trace follows its call**: at every moment of every run in which each call gets a free id and no
result is lost, each recorded call has a trace with its tool and input, and while its tool function is running
the trace has no result; afterwards it has the status, the output and the error of its one result. -/
theorem trace_follows_call {w : W} {t : Traffic W} (r : String)
    (h : Lib.ReachesVia x.trafficStep (fun t e => x.keepsAccounts t e = true) (idle w) t) :
    ∀ (pre : Log) (row : Row) (post : Log) (p : ToolCalledPayload),
      t.shared.log = pre ++ row :: post → row.payload = .toolCalled p →
      ∃ trace ∈ getRunToolTraces (eventStream r 1 (t.shared.log.map (·.payload))),
        trace.toolCallId = p.toolCallId ∧ trace.toolName = p.toolName ∧ trace.input = some p.input ∧
        trace.calledSeq = some (pre.length + 1) ∧
        ((∃ f ∈ t.flights, f.proc.pc.inCall = true ∧ f.proc.toolCallId = p.toolCallId) ∧
            trace.completedSeq = none ∧ (trace.status = "unknown" ∨ trace.status = "guardrail_blocked") ∨
          (∀ f ∈ t.flights, f.proc.pc.finished = false → f.proc.toolCallId ≠ p.toolCallId) ∧
            ∃ result ∈ post, result.payload.resultId = some p.toolCallId ∧
              some trace.status = result.payload.outcome ∧
              trace.output = result.payload.resultOutput.getD .null ∧
              trace.error = result.payload.resultError) := by
  have hinit : LifeInv (idle w).flights (idle w).shared.log := by
    refine ⟨List.nodup_nil, ?_, ?_, ?_⟩
    · intro f hf
      cases hf
    · intro i j f g hf
      simp [idle] at hf
    · intro pre post row id hlog
      simp [idle] at hlog
  have hinv : LifeInv t.flights t.shared.log :=
    h.invariant (I := fun t => LifeInv t.flights t.shared.log) hinit fun t u e _ hok ht hs =>
      x.lifeInv_step ht hok hs
  intro pre row post p hlog hp
  have hcalled : row.payload.calledId = some p.toolCallId := by
    rw [hp]
    rfl
  have hpost : ∀ row' ∈ post, row'.payload.calledId ≠ some p.toolCallId := by
    intro row' hrow' hid
    have hdistinct := hinv.distinct
    rw [hlog, Log.calledIds, List.filterMap_append, List.filterMap_cons, hcalled, List.nodup_append] at hdistinct
    exact (List.nodup_cons.mp hdistinct.2.1).1 (List.mem_filterMap.mpr ⟨row', hrow', hid⟩)
  have hevents : eventStream r 1 (t.shared.log.map (·.payload)) =
      eventStream r 1 (pre.map (·.payload)) ++ ⟨r, 1 + pre.length, row.payload⟩ ::
        eventStream r (1 + pre.length + 1) (post.map (·.payload)) := by
    rw [hlog, List.map_append, List.map_cons, eventStream_append, eventStream, List.length_map]
  have hafter : ∀ e' ∈ eventStream r (1 + pre.length + 1) (post.map (·.payload)),
      e'.payload.calledId ≠ some p.toolCallId := by
    intro e' he'
    obtain ⟨row', hrow', hpayload⟩ := List.mem_map.mp (payload_of_mem_eventStream he')
    rw [← hpayload]
    exact hpost row' hrow'
  have hlisted : p.toolCallId ∈
      (getRunToolTraces (eventStream r 1 (t.shared.log.map (·.payload)))).map (·.toolCallId) := by
    rw [mem_traceIds, TraceTables.get?_calls_isSome, hevents]
    exact .inl ⟨_, List.mem_append_right _ List.mem_cons_self, hcalled⟩
  obtain ⟨trace, htrace, hid⟩ := List.mem_map.mp hlisted
  have htells := tellsOf_of_mem htrace hevents hp hid.symm (hid ▸ hafter)
  have hresults := payloads_resultsOf r post (1 + pre.length + 1) p.toolCallId
  rw [hid] at htells
  generalize resultsOf (eventStream r (1 + pre.length + 1) (post.map (·.payload))) p.toolCallId = results
    at htells hresults
  refine ⟨trace, htrace, hid, htells.toolName, htells.input, ?_, ?_⟩
  · rw [htells.calledSeq]
    exact congrArg some (Nat.add_comm 1 _)
  · obtain ⟨hopen, hzero⟩ | ⟨hclosed, hone⟩ := hinv.account hlog hcalled
    · rw [Log.results, List.countP_eq_length_filter, List.length_eq_zero_iff] at hzero
      rw [hzero, List.map_nil, List.map_eq_nil_iff] at hresults
      subst hresults
      refine .inl ⟨hopen, htells.completedSeq, ?_⟩
      rw [htells.status]
      cases blocksOf (eventStream r 1 (t.shared.log.map (·.payload))) p.toolCallId with
      | nil => exact .inl rfl
      | cons b bs => exact .inr rfl
    · rw [Log.results, List.countP_eq_length_filter, List.length_eq_one_iff] at hone
      obtain ⟨result, hone⟩ := hone
      have hmem : result ∈ post ∧ result.payload.resultId = some p.toolCallId := by
        have hmem : result ∈ post.filter fun row => row.payload.resultId = some p.toolCallId := by
          rw [hone]
          exact List.mem_singleton_self result
        simpa using hmem
      rw [hone, List.map_singleton] at hresults
      obtain ⟨e, rfl, he⟩ := List.map_eq_singleton_iff.mp hresults
      obtain ⟨status, hstatus⟩ := Option.ne_none_iff_exists'.mp (TraceTables.outcome_of_resultId hmem.2)
      refine .inr ⟨hclosed, result, hmem.1, hmem.2, ?_, ?_, ?_⟩
      · rw [htells.status, shownStatus, List.getLast?_singleton, Option.bind_some, he, hstatus]
      · rw [htells.output, ← he]
        cases houtput : e.payload.resultOutput with
        | none => simp [houtput]
        | some v => simp [houtput]
      · rw [htells.error, ← he]
        cases herror : e.payload.resultError with
        | none => simp [herror]
        | some v => simp [herror]

end ToolExecutor

section scenario
attribute [local instance] asciiPy

/-- An upload that is confirmed and made again is shown as completed. -/
theorem confirmed_upload_traced : ∃ t,
    Lib.ReachesVia remoteExecutor.trafficStep
      (fun t e => remoteExecutor.keepsAccounts t e = true) (ToolExecutor.idle 0) t ∧
      ∃ trace ∈ getRunToolTraces (eventStream "run_1" 1 (t.shared.log.map (·.payload))),
        trace.toolCallId = "t1" ∧ trace.status = "completed" := by
  obtain ⟨t, ht, hp⟩ := Lib.exists_reachesVia_of_run remoteExecutor.trafficStep
    remoteExecutor.keepsAccounts (uploads "a.pdf" "a.pdf" ++ List.replicate 3 (Happening.act 1))
    (ToolExecutor.idle 0) (fun t => (t.flights.all fun f => f.proc.pc.finished) &&
      (t.shared.log.any fun row => row.payload.calledId = some "t1") &&
      t.shared.log.all fun row => row.payload.resultId ≠ some "t1" || row.payload.outcome = some "completed")
    (by decide +kernel)
  rw [Bool.and_eq_true, Bool.and_eq_true, List.all_eq_true, List.any_eq_true, List.all_eq_true] at hp
  obtain ⟨⟨hfinished, row, hrow, hcalled⟩, hcompleted⟩ := hp
  refine ⟨t, ht, ?_⟩
  obtain ⟨pre, post, hlog⟩ := List.append_of_mem hrow
  cases hpayload : row.payload with
  | toolCalled p =>
      rw [decide_eq_true_eq, hpayload] at hcalled
      obtain ⟨trace, htrace, hid, -, -, -, hstate⟩ :=
        remoteExecutor.trace_follows_call "run_1" ht pre row post p hlog hpayload
      obtain ⟨⟨f, hf, hin, -⟩, -⟩ | ⟨-, result, hresult, hresultId, hstatus, -⟩ := hstate
      · have hfin := unfinished_of_inCall hin
        rw [hfinished f hf] at hfin
        cases hfin
      · have hid' := Option.some.inj hcalled
        refine ⟨trace, htrace, hid.trans hid', ?_⟩
        have hall := hcompleted result (by rw [hlog]; simp [hresult])
        rw [hresultId, hid'] at hall
        simp only [ne_eq, not_true_eq_false, decide_false, Bool.false_or, decide_eq_true_eq] at hall
        rw [hall] at hstatus
        exact Option.some.inj hstatus
  | _ =>
      rw [decide_eq_true_eq, hpayload] at hcalled
      cases hcalled

end scenario

end JAgent
