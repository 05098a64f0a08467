import JAgent.Core.DagVars
import JAgent.Core.Recovery

/-! # Executing a single step

The pure parts of the executor: the downstream gate, the upstream map a step's input is
resolved against, what happens before the Tool Layer is called (`prepareStep`), and how its
answer becomes a step result (`dispatch`) and an event (`settle`). -/

namespace JAgent

/-! ### Answers of the Tool Layer -/

inductive ExecutionStatus where
  | completed | failed | timeout | guardrailBlocked | confirmationNeeded | idempotencyHit
deriving DecidableEq

def ExecutionStatus.value : ExecutionStatus → String
  | .completed => "completed"
  | .failed => "failed"
  | .timeout => "timeout"
  | .guardrailBlocked => "guardrail_blocked"
  | .confirmationNeeded => "confirmation_needed"
  | .idempotencyHit => "idempotency_hit"

/-- The fields of a tool execution result that the executor reads. -/
structure ToolExecutionResult where
  status : ExecutionStatus
  toolCallId : String
  output : Value := .null
  error : Option String := none
  retryable : Bool := false
  confirmationId : Option String := none
  hasSemanticError : Bool := false
deriving DecidableEq

/-- A request for confirmation names the confirmation. -/
def namesConfirmation (r : ToolExecutionResult) : Bool :=
  r.status ≠ .confirmationNeeded || r.confirmationId.isSome

/-! ### The downstream gate -/

/-- `_gate_skip_reason`: the first dependency whose result is present and not normal. -/
def gateSkipReason (step : DagStep) (results : Results) : Option String :=
  step.dependsOn.findSome? fun dep => match results.get? dep with
    | some r =>
      if r.stepNormal then none
      else some ("dep '" ++ dep ++ "' not normal (exec_state=" ++ r.execState.value ++ ")")
    | none => none

/-- A step that passes the gate has only normal results among its dependencies. -/
theorem normal_of_gate {step : DagStep} {results : Results}
    (h : gateSkipReason step results = none) {d : String} (hd : d ∈ step.dependsOn)
    {r : StepResult} (hr : results.get? d = some r) : r.stepNormal = true := by
  unfold gateSkipReason at h
  have := List.findSome?_eq_none_iff.mp h d hd
  rw [hr] at this
  by_contra hn
  simp [hn] at this

/-- `upstream`: the outputs of all normal results, then a legacy key for each dependency. -/
def upstreamOutputs (step : DagStep) (results : Results) : Lib.Dict String Value :=
  step.dependsOn.foldl (fun up dep => match up.get? (dep ++ "_result"), up.get? dep with
      | none, some v => up.set (dep ++ "_result") v
      | _, _ => up)
    (.ofPairs ((results.items.filter fun kr => kr.2.stepNormal).map fun kr => (kr.1, kr.2.output)))

/-- The output of a step with a normal result. -/
def normalOutput (results : Results) (sid : String) : Option Value :=
  match results.get? sid with
  | some r => if r.stepNormal then some r.output else none
  | none => none

/-- The upstream map holds the output of every normal step under its own id. -/
theorem upstreamOutputs_get? {step : DagStep} {results : Results} {sid : String} {v : Value}
    (h : normalOutput results sid = some v) : (upstreamOutputs step results).get? sid = some v := by
  have hbase : (Lib.Dict.ofPairs ((results.items.filter fun kr => kr.2.stepNormal).map
      fun (kr : String × StepResult) => (kr.1, kr.2.output))).get? sid = some v := by
    unfold normalOutput at h
    split at h
    next r hr =>
      split_ifs at h with hn
      cases h
      refine Lib.Dict.get?_ofPairs_of_nodup ?_ ?_
      · rw [List.map_map]
        exact (List.filter_sublist.map _).nodup results.nodup
      · exact List.mem_map.mpr ⟨(sid, r), List.mem_filter.mpr ⟨Lib.Dict.mem_items_iff.mpr hr, hn⟩, rfl⟩
    next => cases h
  unfold upstreamOutputs
  -- a legacy key is only written where nothing is stored yet
  generalize Lib.Dict.ofPairs ((results.items.filter fun kr => kr.2.stepNormal).map
    fun (kr : String × StepResult) => (kr.1, kr.2.output)) = up at hbase ⊢
  induction step.dependsOn generalizing up with
  | nil => exact hbase
  | cons dep deps ih =>
      rw [List.foldl_cons]
      apply ih
      split
      next w hnone hsome =>
        rw [Lib.Dict.get?_set, if_neg]
        · exact hbase
        · intro heq
          rw [heq, hbase] at hnone
          cases hnone
      next => exact hbase

/-! ### One step -/

/-- What `_execute_step` does before the Tool Layer: it returns at once, or calls it. -/
inductive Prepared where
  | returned (r : StepResult)
  | call (step : DagStep) (input : Obj)

/-- `StepResult(step_id, FAILED, error=…)`. -/
def failedResult (stepId error : String) : StepResult :=
  { stepId := stepId, execState := .failed, error := some error }

/-- `StepResult(step_id, SKIPPED, error=…, probe=…)`. -/
def skippedResult (stepId reason : String) (probe : Bool) : StepResult :=
  { stepId := stepId, execState := .skipped, error := some reason, probe := probe }

section
variable [Py] (registry : Registry)

/-- The part of `_execute_step` up to the call of the Tool Layer. -/
def prepareStep (plan : DagPlan) (results : Results) (stepId : String) : Prepared :=
  match plan.steps.find? fun s => s.id = stepId with
  | none => .returned (failedResult stepId ("Step '" ++ stepId ++ "' not found in plan"))
  | some step => match gateSkipReason step results with
    | some reason => .returned (skippedResult stepId reason step.probe)
    | none => match resolveVariablesInInput (upstreamOutputs step results) step.input with
      | .error e => .returned (failedResult stepId e.message)
      | .ok input => match registry.getToolDef step.tool with
        | none => .returned (failedResult stepId ("step execution: " ++ unknownToolMessage step.tool))
        | some _ => .call step input

/-- The status dispatch of `_execute_step`. -/
def dispatch (step : DagStep) (r : ToolExecutionResult) : StepResult :=
  match r.status with
  | .completed =>
    if r.hasSemanticError then
      { stepId := step.id, execState := .unsuccessful, output := r.output,
        summary := truncateOutput r.output, error := r.error, probe := step.probe,
        toolCallId := some r.toolCallId }
    else
      { stepId := step.id, execState := .completed, output := r.output,
        summary := truncateOutput r.output, probe := step.probe, toolCallId := some r.toolCallId }
  | .idempotencyHit =>
    if r.hasSemanticError then
      { stepId := step.id, execState := .unsuccessful, output := r.output,
        summary := truncateOutput r.output, error := r.error, probe := step.probe,
        toolCallId := some r.toolCallId }
    else
      { stepId := step.id, execState := .idempotent, output := r.output,
        summary := truncateOutput r.output, probe := step.probe, toolCallId := some r.toolCallId }
  | .confirmationNeeded =>
    { stepId := step.id, execState := .pending, confirmationId := r.confirmationId,
      probe := step.probe }
  | status =>
    { stepId := step.id, execState := .failed,
      error := some (match r.error with
        | none | some "" => "Step failed with status " ++ status.value
        | some e => e),
      retryable := r.retryable, toolCallId := some r.toolCallId }

/-! ### Settling the result of a step -/

/-- What a step task of a layer ends with: a result, or an exception with its text. -/
abbrev Raw := Except String StepResult

/-- What settling one step of a layer does. -/
structure Settled where
  result : StepResult
  event : Option Event
  pending : Option String := none
  failed : Bool := false

/-- `error or default`. -/
def errorOr (error : Option String) (default : String) : String :=
  match error with
  | none | some "" => default
  | some e => e

/-- Phase 3 of `_execute_layer` for one step. -/
def settle (planId : String) (layerIdx : ℕ) (toolName sid : String) : Raw → Settled
  | .error msg =>
    let error := "DagExecutor layer " ++ toString layerIdx ++ ": " ++ msg
    { result := failedResult sid error
      event := some (.stepFailed planId sid error false toolName none)
      failed := true }
  | .ok raw => match raw.execState with
    | .completed => { result := raw
                      event := some (.stepCompleted planId sid raw.summary .completed none raw.toolCallId) }
    | .idempotent => { result := raw
                       event := some (.stepCompleted planId sid raw.summary .idempotent none raw.toolCallId) }
    | .unsuccessful => { result := raw
                         event := some (.stepCompleted planId sid raw.summary .unsuccessful raw.error
                           raw.toolCallId) }
    | state => match raw.confirmationId with
      | some cid => { result := raw, event := none, pending := some cid }
      | none =>
        if state = .skipped then
          { result := raw
            event := some (.stepSkipped planId sid (errorOr raw.error "dep_not_normal") toolName) }
        else
          { result := raw
            event := some (.stepFailed planId sid (errorOr raw.error "unknown") raw.retryable toolName
              raw.toolCallId)
            failed := true }

end

/-! ### Facts about one step -/

section facts
variable {registry : Registry} {plan : DagPlan} {results : Results} {stepId : String}

/-- **A call passes the gate with a resolved input.** -/
theorem prepareStep_call [Py] {step : DagStep} {input : Obj}
    (h : prepareStep registry plan results stepId = .call step input) :
    step ∈ plan.steps ∧ step.id = stepId ∧ gateSkipReason step results = none ∧
      resolveVariablesInInput (upstreamOutputs step results) step.input = .ok input := by
  unfold prepareStep at h
  split at h
  next => cases h
  next s hs =>
    have hmem := List.mem_of_find?_eq_some hs
    have hid := List.find?_some hs
    split at h
    next => cases h
    next hg =>
      split at h
      next => cases h
      next inp hi =>
        split at h
        next => cases h
        next =>
          cases h
          exact ⟨hmem, by simpa using hid, hg, hi⟩

/-- A step that returns before the Tool Layer is FAILED or SKIPPED. -/
theorem prepareStep_returned [Py] {r : StepResult}
    (h : prepareStep registry plan results stepId = .returned r) :
    r.execState = .failed ∨ r.execState = .skipped := by
  unfold prepareStep at h
  repeat' split at h
  all_goals first | (cases h; simp [failedResult, skippedResult]) | cases h

/-- The Tool Layer never cancels a step. -/
theorem dispatch_execState [Py] (step : DagStep) (r : ToolExecutionResult) :
    (dispatch step r).execState ≠ .cancelled := by
  unfold dispatch
  repeat' split
  all_goals simp

theorem settle_result {planId : String} {layerIdx : ℕ} {toolName sid : String} {raw : StepResult} :
    (settle planId layerIdx toolName sid (.ok raw)).result = raw := by
  unfold settle
  simp only
  repeat' split
  all_goals rfl

/-- A finished or unsuccessful state is announced exactly as it is recorded. -/
theorem settle_event {planId : String} {layerIdx : ℕ} {toolName sid : String} {raw : Raw}
    {pid sid' summary : String} {status : ExecState} {error callId : Option String}
    (h : (settle planId layerIdx toolName sid raw).event =
      some (.stepCompleted pid sid' summary status error callId)) :
    sid' = sid ∧ (settle planId layerIdx toolName sid raw).result.execState = status ∧
      (status = .completed ∨ status = .idempotent ∨ status = .unsuccessful) := by
  unfold settle at h ⊢
  cases raw with
  | error msg => simp at h
  | ok raw =>
      simp only at h ⊢
      cases hs : raw.execState <;> simp only [hs] at h ⊢
      all_goals first
        | (simp only [Option.some.injEq, Event.stepCompleted.injEq] at h
           obtain ⟨_, h1, _, h2, _⟩ := h
           subst h1 h2
           simp)
        | (split at h <;> simp at h)

/-- A finished step does not wait for confirmation. -/
theorem settle_pending {planId : String} {layerIdx : ℕ} {toolName sid : String} {raw : Raw}
    (h : (settle planId layerIdx toolName sid raw).result.finished = true) :
    (settle planId layerIdx toolName sid raw).pending = none := by
  cases raw with
  | error msg => rfl
  | ok r =>
      rw [settle_result] at h
      unfold StepResult.finished at h
      unfold settle
      rcases (by simpa using h : r.execState = .completed ∨ r.execState = .idempotent) with h | h <;>
        simp [h]

end facts
end JAgent
