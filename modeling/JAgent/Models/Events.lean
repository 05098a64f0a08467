import JAgent.Models.Plan

/-! # Event payloads

The payload classes of the event stream, one constructor of `Payload` per class, and the
aggregate type each belongs to (`EventType`).  A payload is a parsed one: what the validators
reject never becomes a value here.  Wall-clock times are left out, and with them the durations
of tool calls. -/

namespace JAgent

inductive EventType where
  | run | plan | step | stepRepair | tool | confirmation | context | conversation | workspace
  | diagnostic | agentThought | feedbackInjected | deliveryContractsResolved
deriving DecidableEq, Repr

inductive ToolResultType where
  | success | unsuccessful
deriving DecidableEq, Repr

structure RunStartedPayload where
  intent : String
  currentRequest : Option String := none
  contextSnapshot : Obj := []
  conversationId : Option String := none
  workspaceId : Option String := none
  intentRaw : Option String := none
  contracts : List DeliveryContract := []
  requiresContractExtraction : Bool := false
deriving DecidableEq

structure RunCompletedPayload where
  resultSummary : String
  allNormal : Bool := true
  unmetStepIds : List String := []
  deliverableStatus : String := "unverified"
  deliverableSummary : List Obj := []
deriving DecidableEq

structure RunFailedPayload where
  finalError : String
  eventCount : ℕ
  resultSummary : Option String := none
  userFacingMessage : String := "任务未能完成，请检查任务要求或稍后重试。"
deriving DecidableEq

structure ToolCalledPayload where
  toolCallId : String
  toolName : String
  input : Obj
  idempotencyKey : Option String := none
  stepId : Option String := none
deriving DecidableEq

structure ToolCompletedPayload where
  toolCallId : String
  toolName : String
  output : Value
  resultType : ToolResultType := .success
  error : Option String := none
  stepId : Option String := none
deriving DecidableEq

structure OutputBlobStoredPayload where
  toolCallId : String
  toolName : String
  ref : String
  sha256 : String
  bytes : ℕ
  summary : String := ""
  truncated : Bool := true
  stepId : Option String := none
  workspaceId : Option String := none
deriving DecidableEq

structure ConfirmationRequestedPayload where
  confirmationId : String
  toolCallId : String
  toolName : String
  input : Obj
  idempotencyKey : String
  riskLevel : String := "medium"
  stepId : Option String := none
deriving DecidableEq

structure ConfirmationReceivedPayload where
  confirmationId : String
  confirmed : Bool
  operatorId : String
  stepId : Option String := none
deriving DecidableEq

/-- A structured episode of the memory; its scores and embeddings are left out. -/
structure Episode where
  episodeRange : ℕ × ℕ
  keyDecisions : List String
  toolsUsed : List String
  keyFindings : List String
  errorsEncountered : List String
  currentPlan : Option String := none
  originalEventRefs : List ℕ
  title : String
  summary : String := ""
  preservedExcerpts : List String := []
deriving DecidableEq

inductive FeedbackSource where
  | monitor | operator
deriving DecidableEq

inductive FeedbackCategory where
  | toolFailure | repeatedCall | guardrailTriggered | operatorAdvice | conditionResolved
deriving DecidableEq

inductive FeedbackPriority where
  | high | medium | low
deriving DecidableEq

structure FeedbackInjectedPayload where
  feedbackId : String := ""
  source : FeedbackSource := .monitor
  category : FeedbackCategory := .operatorAdvice
  feedbackText : String
  priority : FeedbackPriority := .medium
  affectedTool : Option String := none
  errorType : Option String := none
  errorDetail : Option String := none
  suggestion : Option String := none
  expiresAtSeq : Option ℕ := none
  resolvesFeedbackId : Option String := none
  consumedAtSeq : Option ℕ := none
  injectedAtSeq : Option ℕ := none
deriving DecidableEq

/-- A parsed payload.  The payloads of the aggregates that no fold reads (step repair,
diagnostics, conversations, workspaces) are represented by their phase. -/
inductive Payload where
  | runStarted (p : RunStartedPayload)
  | runPaused (reason : String)
  | runResumed (resumeFromSeq : ℕ)
  | runCompleted (p : RunCompletedPayload)
  | runFailed (p : RunFailedPayload)
  | runOrphaned (reason : String)
  | deliveryContractsResolved (contracts : List DeliveryContract) (source : String)
      (timedOut : Bool) (error : Option String)
  | agentThought (thought : String) (toolChoice : Option String) (toolCalls : Option (List String))
  | toolCalled (p : ToolCalledPayload)
  | toolCompleted (p : ToolCompletedPayload)
  | toolFailed (toolCallId toolName error : String) (retryable : Bool) (stepId : Option String)
  | toolTimeout (toolCallId toolName : String) (timeoutMs : ℤ) (stepId : Option String)
  | guardrailTriggered (toolCallId toolName guardrailId reason : String)
      (stepId workspaceId : Option String)
  | outputBlobStored (p : OutputBlobStoredPayload)
  | confirmationRequested (p : ConfirmationRequestedPayload)
  | confirmationReceived (p : ConfirmationReceivedPayload)
  | contextCheckpointed (checkpointSeq : ℕ) (snapshotRef : String)
  | episodeArchived (episode : Episode) (keepRecentCount : ℕ) (archivedEventRefs : List ℕ)
  | contextPruned (prunedEventRefs : List ℕ) (prunedSeqCount : ℕ) (reason : String)
  | feedbackInjected (p : FeedbackInjectedPayload)
  | planCreated (planId intent stepsSummary : String) (layerCount : ℕ) (steps : List Obj)
  | planRevised (planId revisionReason intent remainingStepsSummary : String) (steps : List Obj)
      (stepTasks : List (String × String))
  | planCompleted (planId : String) (completedSteps : ℤ) (totalLayers : ℕ) (summary : String)
  | planFailed (planId : String) (completedSteps : ℤ) (totalLayers : ℕ) (finalError : String)
  | stepStarted (planId stepId toolName : String) (dependsOn : List String)
  | stepCompleted (planId stepId outputSummary status : String) (error toolCallId : Option String)
  | stepFailed (planId stepId error : String) (retryable : Bool) (toolName : String)
      (toolCallId : Option String)
  | stepSkipped (planId stepId reason toolName : String)
  | stepRepair (phase : String)
  | diagnostic (phase : String)
  | conversation (phase : String)
  | workspace (phase : String)
deriving DecidableEq

/-- The aggregate a payload class belongs to. -/
def Payload.eventType : Payload → EventType
  | .runStarted _ | .runPaused _ | .runResumed _ | .runCompleted _ | .runFailed _
  | .runOrphaned _ => .run
  | .deliveryContractsResolved .. => .deliveryContractsResolved
  | .agentThought .. => .agentThought
  | .toolCalled _ | .toolCompleted _ | .toolFailed .. | .toolTimeout .. | .guardrailTriggered ..
  | .outputBlobStored _ => .tool
  | .confirmationRequested _ | .confirmationReceived _ => .confirmation
  | .contextCheckpointed .. | .episodeArchived .. | .contextPruned .. => .context
  | .feedbackInjected _ => .feedbackInjected
  | .planCreated .. | .planRevised .. | .planCompleted .. | .planFailed .. => .plan
  | .stepStarted .. | .stepCompleted .. | .stepFailed .. | .stepSkipped .. => .step
  | .stepRepair _ => .stepRepair
  | .diagnostic _ => .diagnostic
  | .conversation _ => .conversation
  | .workspace _ => .workspace

/-- `is_terminal_event`: the payload ends the run. -/
def Payload.isTerminal : Payload → Bool
  | .runCompleted _ | .runFailed _ => true
  | _ => false

/-! ### The log of one run -/

/-- A row of the event table, without the columns that are the same for the whole run. -/
structure Row where
  payload : Payload
  idempotencyKey : Option String := none
deriving DecidableEq

/-- The rows of one run, in the order of their sequence numbers `1, 2, …`. -/
abbrev Log := List Row

namespace Log
variable (log : Log)

/-- `find_by_idempotency_key`. -/
def findByIdempotencyKey (eventType : EventType) (key : String) : Option Row :=
  log.find? fun r => r.payload.eventType = eventType && r.idempotencyKey = some key

/-- `append_event` without a key. -/
def appendEvent (payload : Payload) : Log := log ++ [{ payload := payload }]

/-- `append_event` with a key: an event of this type and key that is there is kept. -/
def appendKeyed (payload : Payload) (key : Option String) : Log :=
  match key with
  | none => log.appendEvent payload
  | some k => match log.findByIdempotencyKey payload.eventType k with
    | some _ => log
    | none => log ++ [{ payload := payload, idempotencyKey := some k }]

/-- `find_confirmation_by_id`: the first answer to a request. -/
def findConfirmationById (confirmationId : String) : Option ConfirmationReceivedPayload :=
  log.findSome? fun r => match r.payload with
    | .confirmationReceived p => if p.confirmationId = confirmationId then some p else none
    | _ => none

/-- The request with this id. -/
def findRequestById (confirmationId : String) : Option ConfirmationRequestedPayload :=
  log.findSome? fun r => match r.payload with
    | .confirmationRequested p => if p.confirmationId = confirmationId then some p else none
    | _ => none

/-- What `confirm_run` records: the operator's answer to a request, once.  The endpoint refuses an
answer while the run is not paused; here an answer may come at any time. -/
def confirmRun (confirmationId : String) (confirmed : Bool) (operatorId : String) : Log :=
  match log.findConfirmationById confirmationId, log.findRequestById confirmationId with
  | none, some request => log.appendKeyed (.confirmationReceived
      { confirmationId, confirmed, operatorId, stepId := request.stepId })
      (some ("confirm_" ++ confirmationId))
  | _, _ => log

variable {log}

theorem findByIdempotencyKey_some {t : EventType} {k : String} {r : Row}
    (h : log.findByIdempotencyKey t k = some r) :
    r ∈ log ∧ r.payload.eventType = t ∧ r.idempotencyKey = some k := by
  have hp := List.find?_some h
  rw [Bool.and_eq_true, decide_eq_true_eq, decide_eq_true_eq] at hp
  exact ⟨List.mem_of_find?_eq_some h, hp⟩

theorem findByIdempotencyKey_ne_none_iff {t : EventType} {k : String} :
    log.findByIdempotencyKey t k ≠ none ↔
      ∃ r ∈ log, r.payload.eventType = t ∧ r.idempotencyKey = some k := by
  unfold findByIdempotencyKey
  rw [Option.ne_none_iff_isSome, List.find?_isSome]
  simp only [Bool.and_eq_true, decide_eq_true_eq]

theorem mem_appendEvent {p : Payload} {r : Row} :
    r ∈ log.appendEvent p ↔ r ∈ log ∨ r = { payload := p } := by
  unfold appendEvent
  rw [List.mem_append, List.mem_singleton]

/-- Whatever is in the log after a keyed append was there, or is the new row. -/
theorem mem_of_mem_appendKeyed {p : Payload} {key : Option String} {r : Row}
    (h : r ∈ log.appendKeyed p key) : r ∈ log ∨ r = { payload := p, idempotencyKey := key } := by
  unfold appendKeyed at h
  cases key with
  | none => exact mem_appendEvent.mp h
  | some k =>
      simp only at h
      split at h
      · exact .inl h
      · rwa [List.mem_append, List.mem_singleton] at h

theorem mem_appendKeyed {p : Payload} {key : Option String} {r : Row} (h : r ∈ log) :
    r ∈ log.appendKeyed p key := by
  unfold appendKeyed
  cases key with
  | none => exact mem_appendEvent.mpr (.inl h)
  | some k =>
      simp only
      split
      · exact h
      · exact List.mem_append_left _ h

/-- After a keyed append, the key is found. -/
theorem findByIdempotencyKey_appendKeyed (p : Payload) (k : String) :
    (log.appendKeyed p (some k)).findByIdempotencyKey p.eventType k ≠ none := by
  unfold appendKeyed
  simp only
  split
  · next r hr =>
      rw [hr]
      exact Option.some_ne_none r
  · rw [findByIdempotencyKey_ne_none_iff]
    exact ⟨_, List.mem_append_right _ (List.mem_singleton_self _), rfl, rfl⟩

theorem findConfirmationById_some {cid : String} {p : ConfirmationReceivedPayload}
    (h : log.findConfirmationById cid = some p) :
    (∃ r ∈ log, r.payload = .confirmationReceived p) ∧ p.confirmationId = cid := by
  obtain ⟨r, hr, hp⟩ := List.exists_of_findSome?_eq_some h
  split at hp
  · next q hq =>
      split_ifs at hp with hc
      obtain rfl : q = p := by simpa using hp
      exact ⟨⟨r, hr, hq⟩, hc⟩
  · cases hp

theorem mem_confirmRun {cid : String} {b : Bool} {op : String} {r : Row} (h : r ∈ log) :
    r ∈ log.confirmRun cid b op := by
  unfold confirmRun
  split
  · exact mem_appendKeyed h
  · exact h

end Log
end JAgent
