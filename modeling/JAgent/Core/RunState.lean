import JAgent.Core.DagTypes
import JAgent.Models.Events

/-! # Folding the event stream

`fold_events`: the snapshot of a run as a function of its events.  Two of its parts are kept
apart by the design: the working view that is shown to the planner (thoughts, tool results,
summaries), which archiving and pruning may trim, and the facts that the completion gate, a
resumed run and the replay rely on.

`fold_without_context` is the law of this design: deleting any of the events that manage the
context leaves every fact as it is and can only bring back entries of the working view. -/

namespace JAgent

inductive RunStatus where
  | running | paused | completed | failed
deriving DecidableEq, Repr

/-- The run has ended. -/
def RunStatus.isTerminal : RunStatus → Bool
  | .completed | .failed => true
  | _ => false

/-- `RunStatus.value`. -/
def RunStatus.value : RunStatus → String
  | .running => "running"
  | .paused => "paused"
  | .completed => "completed"
  | .failed => "failed"

inductive ToolResultStatus where
  | completed | unsuccessful | failed | timeout | guardrailBlocked
deriving DecidableEq, Repr

/-- `ToolResultStatus.value`. -/
def ToolResultStatus.value : ToolResultStatus → String
  | .completed => "completed"
  | .unsuccessful => "unsuccessful"
  | .failed => "failed"
  | .timeout => "timeout"
  | .guardrailBlocked => "guardrail_blocked"

structure ThoughtEntry where
  seq : ℕ
  thought : String
  toolChoice : Option String
deriving DecidableEq

structure ToolResult where
  toolCallId : String
  toolName : String
  status : ToolResultStatus
  output : Value := .null
  error : Option String := none
  eventSeq : ℕ
deriving DecidableEq

/-- `summary` holds the text of the end of the run or the last archived episode. -/
inductive Summary where
  | text (s : String)
  | episode (e : Episode)
deriving DecidableEq

/-- The record of one step; its state is the text the events carry. -/
structure StepRecord where
  stepId : String
  planId : String := ""
  toolName : String := ""
  execState : String := "pending"
  dependsOn : List Value := []
  outputSummary : String := ""
  error : Option String := none
  toolCallId : Option String := none
  outputRef : Option String := none
  output : Value := .null
  probe : Bool := false
  skipReason : Option String := none
  updatedSeq : ℕ := 0
deriving DecidableEq

/-- An entry of `plan_history`; the keys that are written later are optional. -/
structure PlanEntry where
  planId : String
  intent : String
  stepsSummary : String
  layerCount : ℕ
  steps : List Obj
  revisionReason : Option String := none
  remainingStepsSummary : Option String := none
  stepTasks : Option (Lib.Dict String String) := none
  status : Option String := none
  summary : Option String := none
  finalError : Option String := none
deriving DecidableEq

/-- What a completed run says about its achievement. -/
structure CompletionEvidence where
  allNormal : Bool
  unmetStepIds : List String
  deliverableStatus : String
  deliverableSummary : List Obj
deriving DecidableEq

structure RunState where
  runId : String
  status : RunStatus := .running
  seq : ℕ := 0
  intent : String := ""
  currentRequest : String := ""
  contextSnapshot : Obj := []
  thoughtHistory : List ThoughtEntry := []
  latestThought : Option ThoughtEntry := none
  toolCalls : List ToolCalledPayload := []
  toolResults : List ToolResult := []
  lastError : Option String := none
  userFacingMessage : Option String := none
  summary : Option Summary := none
  keepRecentCount : ℕ := 0
  pauseReason : Option String := none
  pendingConfirmations : List ConfirmationRequestedPayload := []
  lastCheckpointSeq : Option ℕ := none
  feedbacks : List FeedbackInjectedPayload := []
  planHistory : List PlanEntry := []
  stepTasks : Lib.Dict String String := .empty
  planBoundarySeqs : List ℕ := []
  completionEvidence : Option CompletionEvidence := none
  conversationId : Option String := none
  workspaceId : Option String := none
  orphaned : Bool := false
  episodes : List Episode := []
  intentRaw : String := ""
  deliveryContracts : List DeliveryContract := []
  requiresContractExtraction : Bool := false
  stepEvidence : Lib.Dict String StepRecord := .empty

/-- A stored event. -/
structure LogEvent where
  runId : String
  seq : ℕ
  payload : Payload

namespace RunState
variable (st : RunState)

/-- `latest_plan` is the last entry of `plan_history`, the same object. -/
def latestPlan : Option PlanEntry := st.planHistory.getLast?

/-- Get or create the record of a step. -/
def record (stepId planId : String) (seq : ℕ) : StepRecord :=
  match st.stepEvidence.get? stepId with
  | none => { stepId, planId, updatedSeq := seq }
  | some ev => if planId = "" then ev else { ev with planId }

/-- Write the record of a step. -/
def setRecord (stepId : String) (ev : StepRecord) : RunState :=
  { st with stepEvidence := st.stepEvidence.set stepId ev }

/-- Change the latest plan if it has this id. -/
def onLatestPlan (planId : String) (f : PlanEntry → Except String PlanEntry) :
    Except String RunState :=
  match st.latestPlan with
  | none => .ok st
  | some entry =>
    if entry.planId = planId then match f entry with
      | .error e => .error e
      | .ok entry' => .ok { st with planHistory := st.planHistory.dropLast ++ [entry'] }
    else .ok st

end RunState

/-! ### Blueprints -/

/-- `p or q` for texts. -/
def orText (p q : String) : String := if p = "" then q else p

/-- The text, unless it is absent or empty. -/
def nonEmpty : Option String → Option String
  | none | some "" => none
  | some s => some s

/-- `o[k] = v`. -/
def Obj.put (o : Obj) (k : String) (v : Value) : Obj :=
  if (Obj.get? o k).isSome then Lib.Dict.replace k v o else o ++ [(k, v)]

/-- `o[k] = v` when there is a text. -/
def Obj.putText (o : Obj) (k : String) (v : Option String) : Obj :=
  match nonEmpty v with
  | some s => Obj.put o k (.str s)
  | none => o

/-- `list(v or [])`. -/
def pyList : Option Value → Except String (List Value)
  | none | some .null => .ok []
  | some (.arr xs) => .ok xs
  | some (.str s) => .ok (s.toList.map fun c => .str (String.singleton c))
  | some (.obj o) => .ok (o.map fun kv => .str kv.1)
  | some (.bool false) => .ok []
  | some (.bool true) => .error "'bool' object is not iterable"
  | some (.int n) => if n = 0 then .ok [] else .error "'int' object is not iterable"
  | some (.float d) => if d = 0 then .ok [] else .error "'float' object is not iterable"

section blueprint
variable [Py]

/-- One step of a blueprint: a changed tool reopens a step that is not finished. -/
def applyBlueprintEntry (planId : String) (seq : ℕ) (st : RunState) (s : Obj) :
    Except String RunState :=
  match Obj.get? s "step_id" with
  | none => .ok st
  | some sid =>
    if !sid.truthy then .ok st
    else
      let ev := st.record (pyStr sid) planId seq
      let newTool := match Obj.get? s "tool_name" with
        | some v => if v.truthy then pyStr v else ev.toolName
        | none => ev.toolName
      let toolChanged := ev.toolName ≠ "" && newTool ≠ ev.toolName && ev.execState ≠ "pending"
      match pyList (Obj.get? s "depends_on") with
      | .error e => .error e
      | .ok deps =>
        let probe := ((Obj.get? s "probe").getD (.bool false)).truthy
        let ev' := { ev with toolName := newTool, dependsOn := deps, probe }
        .ok (st.setRecord (pyStr sid)
          (if toolChanged && !(["completed", "idempotent", "cancelled"].contains ev.execState) then
            { ev' with execState := "pending", error := none, outputSummary := "", toolCallId := none }
          else ev'))

/-- `_apply_blueprint`. -/
def applyPlanBlueprint (planId : String) (seq : ℕ) : List Obj → RunState → Except String RunState
  | [], st => .ok st
  | s :: steps, st => match applyBlueprintEntry planId seq st s with
    | .error e => .error e
    | .ok st' => applyPlanBlueprint planId seq steps st'

end blueprint

/-- Update the first step of a plan with this id, or append a new one; a step without an id in
front of it raises. -/
def upsertStep (stepId : String) (update : Obj → Obj) (new : Obj) :
    List Obj → Except String (List Obj)
  | [] => .ok [new]
  | s :: rest => match Obj.get? s "step_id" with
    | none => .error "'step_id'"
    | some v =>
      if v = .str stepId then .ok (update s :: rest)
      else match upsertStep stepId update new rest with
        | .error e => .error e
        | .ok rest' => .ok (s :: rest')

/-- `upsertStep` on the steps of a plan entry. -/
def PlanEntry.upsert (entry : PlanEntry) (stepId : String) (update : Obj → Obj) (new : Obj) :
    Except String PlanEntry :=
  match upsertStep stepId update new entry.steps with
  | .error e => .error e
  | .ok steps => .ok { entry with steps }

/-- A revision consumes the feedback that was still open. -/
def consumed (seq : ℕ) (fb : FeedbackInjectedPayload) : FeedbackInjectedPayload :=
  { fb with consumedAtSeq := fb.consumedAtSeq.or (some seq) }

/-- The latest plan after a revision: its blueprint is replaced unless the revision has none. -/
def PlanEntry.revised (entry : PlanEntry) (revisionReason intent remaining : String)
    (steps : List Obj) (stepTasks : List (String × String)) : PlanEntry :=
  { entry with
    intent := intent
    revisionReason := some revisionReason
    remainingStepsSummary := some remaining
    stepTasks := some (.ofPairs stepTasks)
    steps := if steps.isEmpty then entry.steps else steps }

/-! ### One event -/

/-- The tool result an event adds to the working view. -/
def toolResultOf (seq : ℕ) : Payload → Option ToolResult
  | .toolCompleted p => some
      { toolCallId := p.toolCallId, toolName := p.toolName
        status := if p.resultType = .unsuccessful then .unsuccessful else .completed
        output := p.output, error := p.error, eventSeq := seq }
  | .toolFailed toolCallId toolName error _ _ => some
      { toolCallId, toolName, status := .failed, error := some error, eventSeq := seq }
  | .toolTimeout toolCallId toolName timeoutMs _ => some
      { toolCallId, toolName, status := .timeout
        error := some ("Timeout after " ++ toString timeoutMs ++ "ms"), eventSeq := seq }
  | .guardrailTriggered toolCallId toolName guardrailId reason _ _ => some
      { toolCallId, toolName, status := .guardrailBlocked
        error := some ("Guardrail '" ++ guardrailId ++ "': " ++ reason), eventSeq := seq }
  | _ => none

/-- The thought an event adds to the working view. -/
def thoughtOf (seq : ℕ) : Payload → Option ThoughtEntry
  | .agentThought thought toolChoice _ => some { seq, thought, toolChoice }
  | _ => none

/-- The reference of an offloaded output. -/
def outputRefOf [Py] (output : Value) (old : Option String) : Option String :=
  match output with
  | .obj o => match Obj.get? o "ref", Obj.get? o "sha256" with
    | some ref, some sha => if ref.truthy && sha.truthy then some (pyStr ref) else old
    | _, _ => old
  | _ => old

/-- Drop the entries of the working view that were archived or pruned. -/
def RunState.trim (st : RunState) (refs : List ℕ) : RunState :=
  { st with
    thoughtHistory := st.thoughtHistory.filter fun t => !refs.contains t.seq
    toolResults := st.toolResults.filter fun r => !refs.contains r.eventSeq }

/-- The body of the loop for an event of this run. -/
def foldPayload [Py] (st : RunState) (seq : ℕ) (payload : Payload) : Except String RunState :=
  match payload with
  | .runStarted p => .ok { st with
      intent := p.intent
      currentRequest := (nonEmpty p.currentRequest).getD p.intent
      contextSnapshot := p.contextSnapshot
      status := .running
      conversationId := p.conversationId
      workspaceId := p.workspaceId
      intentRaw := (nonEmpty p.intentRaw).getD p.intent
      deliveryContracts := p.contracts
      requiresContractExtraction := p.requiresContractExtraction }
  | .runPaused reason => .ok { st with status := .paused, pauseReason := some reason }
  | .runResumed _ => .ok { st with status := .running, pauseReason := none }
  | .runCompleted p => .ok { st with
      status := .completed
      summary := some (.text p.resultSummary)
      completionEvidence := some ⟨p.allNormal, p.unmetStepIds, p.deliverableStatus,
        p.deliverableSummary⟩ }
  | .runFailed p => .ok { st with
      status := .failed
      lastError := some p.finalError
      userFacingMessage := some p.userFacingMessage
      summary := match nonEmpty p.resultSummary with
        | some s => some (.text s)
        | none => st.summary }
  | .runOrphaned _ => .ok { st with orphaned := true }
  | .deliveryContractsResolved contracts _ _ _ => .ok { st with deliveryContracts := contracts }
  | .agentThought thought toolChoice _ => .ok { st with
      thoughtHistory := st.thoughtHistory ++ [{ seq, thought, toolChoice }]
      latestThought := some { seq, thought, toolChoice } }
  | .toolCalled p => .ok { st with toolCalls := st.toolCalls ++ [p] }
  | .toolCompleted p =>
    let st := { st with toolResults := st.toolResults ++ (toolResultOf seq payload).toList }
    match nonEmpty p.stepId with
    | none => .ok st
    | some sid =>
      let ev := st.record sid "" seq
      .ok (st.setRecord sid { ev with
        output := p.output
        toolName := orText p.toolName ev.toolName
        toolCallId := if p.toolCallId = "" then ev.toolCallId else some p.toolCallId
        outputRef := outputRefOf p.output ev.outputRef })
  | .toolFailed _ _ error _ _ => .ok { st with
      toolResults := st.toolResults ++ (toolResultOf seq payload).toList
      lastError := some error }
  | .toolTimeout _ toolName _ _ => .ok { st with
      toolResults := st.toolResults ++ (toolResultOf seq payload).toList
      lastError := some ("Tool '" ++ toolName ++ "' timed out") }
  | .guardrailTriggered .. => .ok { st with
      toolResults := st.toolResults ++ (toolResultOf seq payload).toList }
  | .outputBlobStored _ => .ok st
  | .confirmationRequested p => .ok { st with
      pendingConfirmations := st.pendingConfirmations ++ [p] }
  | .confirmationReceived p => .ok { st with
      pendingConfirmations := st.pendingConfirmations.filter fun c =>
        c.confirmationId ≠ p.confirmationId }
  | .contextCheckpointed checkpointSeq _ => .ok { st with lastCheckpointSeq := some checkpointSeq }
  | .episodeArchived episode keepRecentCount refs => .ok { st.trim refs with
      summary := some (.episode episode)
      episodes := st.episodes ++ [episode]
      keepRecentCount := keepRecentCount }
  | .contextPruned refs _ _ => .ok (st.trim refs)
  | .feedbackInjected p => .ok { st with
      feedbacks := st.feedbacks ++ [{ p with injectedAtSeq := p.injectedAtSeq.or (some seq) }] }
  | .planCreated planId intent stepsSummary layerCount steps =>
    applyPlanBlueprint planId seq steps { st with
      planHistory := st.planHistory ++ [{ planId, intent, stepsSummary, layerCount, steps }] }
  | .planRevised planId revisionReason intent remaining steps stepTasks =>
    match RunState.onLatestPlan { st with feedbacks := st.feedbacks.map (consumed seq) } planId fun entry =>
        .ok (entry.revised revisionReason intent remaining steps stepTasks) with
    | .error e => .error e
    | .ok st => applyPlanBlueprint planId seq steps { st with
        stepTasks := stepTasks.foldl (fun d kv => d.set kv.1 kv.2) st.stepTasks }
  | .planCompleted planId _ _ summary =>
    RunState.onLatestPlan { st with planBoundarySeqs := st.planBoundarySeqs ++ [seq] } planId
      fun entry => .ok { entry with status := some "completed", summary := some summary }
  | .planFailed planId _ _ finalError =>
    RunState.onLatestPlan { st with planBoundarySeqs := st.planBoundarySeqs ++ [seq] } planId
      fun entry => .ok { entry with status := some "failed", finalError := some finalError }
  | .stepStarted planId stepId toolName dependsOn =>
    let ev := st.record stepId planId seq
    (st.setRecord stepId { ev with
      execState := if ev.execState = "pending" || ev.execState = "" then "running" else ev.execState
      toolName := orText toolName ev.toolName
      dependsOn := if dependsOn.isEmpty then ev.dependsOn else dependsOn.map .str
      updatedSeq := seq }).onLatestPlan planId fun entry => entry.upsert stepId
        (fun s => (s.put "status" (.str "started")).put "tool_name" (.str toolName))
        [("step_id", .str stepId), ("tool_name", .str toolName), ("status", .str "started")]
  | .stepCompleted planId stepId outputSummary status error toolCallId =>
    let status := orText status "completed"
    let ev := st.record stepId planId seq
    (st.setRecord stepId { ev with
      execState := status
      outputSummary := orText outputSummary ev.outputSummary
      error := (nonEmpty error).or ev.error
      toolCallId := (nonEmpty toolCallId).or ev.toolCallId
      updatedSeq := seq }).onLatestPlan planId fun entry => entry.upsert stepId
        (fun s => (((s.put "status" (.str status)).put "output_summary" (.str outputSummary)).putText
          "error" error).putText "tool_call_id" toolCallId)
        ((Obj.putText [("step_id", .str stepId), ("status", .str status),
          ("output_summary", .str outputSummary)] "error" error).putText "tool_call_id" toolCallId)
  | .stepFailed planId stepId error _ toolName toolCallId =>
    let ev := st.record stepId planId seq
    (st.setRecord stepId { ev with
      execState := "failed"
      error := some error
      toolName := orText toolName ev.toolName
      toolCallId := (nonEmpty toolCallId).or ev.toolCallId
      updatedSeq := seq }).onLatestPlan planId fun entry => entry.upsert stepId
        (fun s => ((s.put "status" (.str "failed")).put "error" (.str error)).putText
          "tool_call_id" toolCallId)
        (Obj.putText [("step_id", .str stepId), ("status", .str "failed"), ("error", .str error)]
          "tool_call_id" toolCallId)
  | .stepSkipped planId stepId reason toolName =>
    let ev := st.record stepId planId seq
    (st.setRecord stepId { ev with
      execState := "skipped"
      skipReason := some reason
      toolName := orText toolName ev.toolName
      updatedSeq := seq }).onLatestPlan planId fun entry => entry.upsert stepId
        (fun s => (s.put "status" (.str "skipped")).put "reason" (.str reason))
        [("step_id", .str stepId), ("status", .str "skipped"), ("reason", .str reason)]
  | .stepRepair _ | .diagnostic _ | .conversation _ | .workspace _ => .ok st

/-- One event of the stream. -/
def foldEvent [Py] (runId : String) (st : RunState) (e : LogEvent) : Except String RunState :=
  if e.runId ≠ runId then
    .error ("Mixed run_ids in event stream: expected '" ++ runId ++ "', got '" ++ e.runId ++ "'")
  else foldPayload { st with seq := max st.seq e.seq } e.seq e.payload

/-- The loop over the stream. -/
def foldFrom [Py] (runId : String) : RunState → List LogEvent → Except String RunState
  | st, [] => .ok st
  | st, e :: es => match foldEvent runId st e with
    | .error err => .error err
    | .ok st' => foldFrom runId st' es

/-- `fold_events`. -/
def foldEvents [Py] : List LogEvent → Except String RunState
  | [] => .error "Cannot fold empty event list"
  | e :: es => foldFrom e.runId { runId := e.runId } (e :: es)

/-! ### What an event of a plan changes -/

section frame
variable {st st' : RunState}

/-- Only the history of plans changes. -/
theorem onLatestPlan_frame {planId : String} {f : PlanEntry → Except String PlanEntry}
    (h : st.onLatestPlan planId f = .ok st') : ∃ history, st' = { st with planHistory := history } := by
  unfold RunState.onLatestPlan at h
  repeat' split at h
  all_goals cases h
  all_goals exact ⟨_, rfl⟩

variable [Py]

theorem applyBlueprintEntry_frame {planId : String} {seq : ℕ} {s : Obj}
    (h : applyBlueprintEntry planId seq st s = .ok st') :
    ∃ evidence, st' = { st with stepEvidence := evidence } := by
  unfold applyBlueprintEntry at h
  split at h
  · cases h
    exact ⟨_, rfl⟩
  · split_ifs at h
    · cases h
      exact ⟨_, rfl⟩
    · simp only at h
      split at h
      · cases h
      · cases h
        exact ⟨_, rfl⟩

/-- Only the records of steps change. -/
theorem applyPlanBlueprint_frame {planId : String} {seq : ℕ} : ∀ {steps : List Obj} {st : RunState},
    applyPlanBlueprint planId seq steps st = .ok st' →
      ∃ evidence, st' = { st with stepEvidence := evidence }
  | [], _, h => by
      cases h
      exact ⟨_, rfl⟩
  | s :: steps, st, h => by
      unfold applyPlanBlueprint at h
      split at h
      next => cases h
      next st₁ h₁ =>
        obtain ⟨evidence₁, rfl⟩ := applyBlueprintEntry_frame h₁
        obtain ⟨evidence, rfl⟩ := applyPlanBlueprint_frame h
        exact ⟨evidence, rfl⟩

/-- The payload is of the plan aggregate or of the step aggregate. -/
def Payload.ofPlan (p : Payload) : Prop := p.eventType = .plan ∨ p.eventType = .step

/-- **What an event of a plan or a step may change.** -/
theorem foldPayload_frame {seq : ℕ} {p : Payload} (hp : p.ofPlan) (h : foldPayload st seq p = .ok st') :
    ∃ history evidence feedbacks tasks boundaries,
      st' = { st with
        planHistory := history, stepEvidence := evidence, feedbacks := feedbacks, stepTasks := tasks
        planBoundarySeqs := boundaries } ∧
      (boundaries = st.planBoundarySeqs ∨ boundaries = st.planBoundarySeqs ++ [seq]) := by
  cases p with
  | planCreated planId intent stepsSummary layerCount steps =>
      obtain ⟨_, rfl⟩ := applyPlanBlueprint_frame h
      exact ⟨_, _, _, _, _, rfl, .inl rfl⟩
  | planRevised planId revisionReason intent remaining steps stepTasks =>
      simp only [foldPayload] at h
      split at h
      next => cases h
      next st₁ h₁ =>
        obtain ⟨_, rfl⟩ := onLatestPlan_frame h₁
        obtain ⟨_, rfl⟩ := applyPlanBlueprint_frame h
        exact ⟨_, _, _, _, _, rfl, .inl rfl⟩
  | planCompleted | planFailed =>
      simp only [foldPayload] at h
      obtain ⟨_, rfl⟩ := onLatestPlan_frame h
      exact ⟨_, _, _, _, _, rfl, .inr rfl⟩
  | stepStarted | stepCompleted | stepFailed | stepSkipped =>
      simp only [foldPayload] at h
      obtain ⟨_, rfl⟩ := onLatestPlan_frame h
      exact ⟨_, _, _, _, _, rfl, .inl rfl⟩
  | _ => simp [Payload.ofPlan, Payload.eventType] at hp

/-! ### The loop -/

theorem foldFrom_cons_eq_ok {r : String} {e : LogEvent} {es : List LogEvent} :
    foldFrom r st (e :: es) = .ok st' ↔ ∃ v, foldEvent r st e = .ok v ∧ foldFrom r v es = .ok st' := by
  rw [foldFrom]
  cases foldEvent r st e with
  | error err => simp
  | ok v => simp

/-- **The loop on a part of the state** that each event moves by itself. -/
theorem foldFrom_part {β : Type} {part : RunState → β} {move : β → LogEvent → β} {r : String}
    (hmove : ∀ st v e, foldEvent r st e = .ok v → part v = move (part st) e) {es : List LogEvent}
    (h : foldFrom r st es = .ok st') : part st' = es.foldl move (part st) := by
  induction es generalizing st with
  | nil =>
      cases h
      rfl
  | cons e es ih =>
      obtain ⟨v, hv, h⟩ := foldFrom_cons_eq_ok.mp h
      rw [ih h, hmove st v e hv, List.foldl_cons]

end frame

end JAgent
