import JAgent.Models.Events
import JAgent.Models.Schema
import JAgent.JsonRoundTrip

/-! # The payload classes and their codec

Every payload class with all its fields, the unions they form per aggregate and `parse_event_payload`,
the one place payloads are validated at; then the way through the store, from `append_event` to
`event_from_row`.

A union keeps the members that accept the input; which of several it takes is the parameter
`SmartUnion`, and of one there is nothing to choose.  The `phase` literals make it one: two members of
a union never have the same phase (`phase_injective`), and a member rejects the dump of an instance
with another phase (`PayloadClass.accepts_iff`).  Hence `parseEventPayload_dump`, and with the JSON
round trip the text form. -/

namespace JAgent

/-- `hashlib.sha256(…).hexdigest()`. -/
class Sha256 where
  hexdigest : String → String
  length_hexdigest : ∀ s, (hexdigest s).toList.length = 64

/-! ### Enumerations -/

def DeliverySource.value : DeliverySource → String
  | .caller => "caller"
  | .extracted => "extracted"

def DeliverySource.ofValue (s : String) : Option DeliverySource :=
  [.caller, .extracted].find? fun a => a.value = s

def ToolResultType.value : ToolResultType → String
  | .success => "success"
  | .unsuccessful => "unsuccessful"

def ToolResultType.ofValue (s : String) : Option ToolResultType :=
  [.success, .unsuccessful].find? fun a => a.value = s

def FeedbackSource.value : FeedbackSource → String
  | .monitor => "monitor"
  | .operator => "operator"

def FeedbackSource.ofValue (s : String) : Option FeedbackSource :=
  [.monitor, .operator].find? fun a => a.value = s

def FeedbackCategory.value : FeedbackCategory → String
  | .toolFailure => "tool_failure"
  | .repeatedCall => "repeated_call"
  | .guardrailTriggered => "guardrail_triggered"
  | .operatorAdvice => "operator_advice"
  | .conditionResolved => "condition_resolved"

def FeedbackCategory.ofValue (s : String) : Option FeedbackCategory :=
  [.toolFailure, .repeatedCall, .guardrailTriggered, .operatorAdvice, .conditionResolved].find?
    fun a => a.value = s

def EventType.value : EventType → String
  | .run => "Run"
  | .plan => "Plan"
  | .step => "Step"
  | .stepRepair => "StepRepair"
  | .tool => "Tool"
  | .confirmation => "Confirmation"
  | .context => "Context"
  | .conversation => "Conversation"
  | .workspace => "Workspace"
  | .diagnostic => "Diagnostic"
  | .agentThought => "AgentThought"
  | .feedbackInjected => "FeedbackInjected"
  | .deliveryContractsResolved => "DeliveryContractsResolved"

/-- `EventType(raw)`. -/
def EventType.ofValue (s : String) : Option EventType :=
  [.run, .plan, .step, .stepRepair, .tool, .confirmation, .context, .conversation, .workspace,
    .diagnostic, .agentThought, .feedbackInjected, .deliveryContractsResolved].find? fun a => a.value = s

theorem EventType.ofValue_value (t : EventType) : EventType.ofValue t.value = some t := by
  cases t <;> decide

namespace Codec

theorem str_dump_ne_null (s : str.Carrier) : str.dump s ≠ .null := Value.noConfusion

theorem int_dump_ne_null [Lax] (n : int.Carrier) : int.dump n ≠ .null := Value.noConfusion

theorem list_dump_ne_null (c : Codec) (xs : c.list.Carrier) : c.list.dump xs ≠ .null :=
  Value.noConfusion

/-- `str | None`. -/
def optStr : Codec := optional str str_dump_ne_null

/-- `int | None`. -/
def optInt [Lax] : Codec := optional int int_dump_ne_null

/-- `list[T] | None`. -/
def optList (c : Codec) : Codec := optional c.list c.list_dump_ne_null

def deliverySource : Codec :=
  enum DeliverySource.value DeliverySource.ofValue fun a => by cases a <;> decide

def toolResultType : Codec :=
  enum ToolResultType.value ToolResultType.ofValue fun a => by cases a <;> decide

def feedbackSource : Codec :=
  enum FeedbackSource.value FeedbackSource.ofValue fun a => by cases a <;> decide

def feedbackCategory : Codec :=
  enum FeedbackCategory.value FeedbackCategory.ofValue fun a => by cases a <;> decide

end Codec

/-! ### The classes -/

open Codec Schema

/-- `phase: Literal[ph] = ph`. -/
def Schema.phase (ph : String) (s : Schema) : Schema :=
  field "phase" (literal [ph]) ⟨ph, List.mem_singleton_self ph⟩ s

/-- The dump of an instance has the phase of its class. -/
theorem Schema.get?_phase_dump {s s' : Schema} {ph : String} (h : s = Schema.phase ph s')
    (x : s.Carrier) : Obj.get? (s.dump x) "phase" = some (.str ph) := by
  subst h
  have hph : x.1.1 = ph := List.mem_singleton.mp x.1.2
  show Lib.assoc "phase" (("phase", Value.str x.1.1) :: s'.dump x.2) = _
  rw [hph]
  rfl

/-- Another phase is rejected. -/
theorem Schema.read_phase_ne {s s' : Schema} {ph ph' : String} (h : s = Schema.phase ph' s')
    {get : String → Option Value} (hget : get "phase" = some (.str ph)) (hne : ph ≠ ph') :
    s.read get = none := by
  subst h
  have hlit : (literal [ph']).validate (.str ph) = none := by
    simp [literal, validateStr, hne]
  have hfield : Schema.readField "phase" (literal [ph']) (some ⟨ph', List.mem_singleton_self ph'⟩) get =
      none := by
    rw [Schema.readField, hget]
    exact hlit
  show (Schema.readField "phase" (literal [ph']) _ get).bind _ = none
  rw [hfield, Option.bind_none]

section contract
variable [Py] [Sha256]

def deliveryContractFields : Schema :=
  field "contract_id" str "" <|
  field "source" deliverySource DeliverySource.extracted <|
  required "tool" str <|
  field "input" (dict any) .empty
  nil

namespace DeliveryFields
variable (x : deliveryContractFields.Carrier)

def contractId : String := x.1

def tool : String := x.2.2.1

def input : Lib.Dict String any.Carrier := x.2.2.2.1

end DeliveryFields

/-- `hashlib.sha256(raw.encode()).hexdigest()[:16]`. -/
def contentId (raw : String) : String := String.ofList ((Sha256.hexdigest raw).toList.take 16)

/-- `_ensure_contract_id`. -/
def ensureContractId (x : deliveryContractFields.Carrier) : deliveryContractFields.Carrier :=
  if DeliveryFields.contractId x = "" then
    (contentId (dumps { ensureAscii := false }
      (.obj [("tool", .str (DeliveryFields.tool x)), ("input", (dict any).dump (DeliveryFields.input x))])),
      x.2)
  else x

omit [Py] in
theorem contentId_ne_empty (raw : String) : contentId raw ≠ "" := by
  intro h
  have hlen := congrArg (fun s : String => s.toList.length) h
  simp [contentId, Sha256.length_hexdigest] at hlen

/-- The id filled in is not empty. -/
theorem ensureContractId_idem (x : deliveryContractFields.Carrier) :
    ensureContractId (ensureContractId x) = ensureContractId x := by
  by_cases h : DeliveryFields.contractId x = ""
  · have hx : ensureContractId x = (contentId _, x.2) := if_pos h
    rw [hx]
    exact if_neg (contentId_ne_empty _)
  · have hx : ensureContractId x = x := if_neg h
    rw [hx, hx]

/-- `DeliveryContract`; unknown keys, which old events have, are ignored. -/
def deliveryContract : Codec :=
  after (model false deliveryContractFields (by decide)) ensureContractId ensureContractId_idem

end contract

namespace Schema
variable [Py] [Sha256] [Lax]

/-! The run. -/

def runStarted : Schema :=
  phase "started" <|
  required "intent" str <|
  field "current_request" optStr none <|
  field "context_snapshot" (dict any) .empty <|
  field "conversation_id" optStr none <|
  field "workspace_id" optStr none <|
  field "intent_raw" optStr none <|
  field "contracts" (list deliveryContract) [] <|
  field "requires_contract_extraction" bool false
  nil

def runPaused : Schema := phase "paused" <| required "reason" str nil

def runResumed : Schema := phase "resumed" <| required "resume_from_seq" int nil

def runCompleted : Schema :=
  phase "completed" <|
  required "result_summary" str <|
  field "all_normal" bool true <|
  field "unmet_step_ids" (list str) [] <|
  field "deliverable_status" str "unverified" <|
  field "deliverable_summary" (list (dict any)) []
  nil

def runFailed : Schema :=
  phase "failed" <|
  required "final_error" str <|
  required "event_count" int <|
  field "result_summary" optStr none <|
  field "user_facing_message" str "任务未能完成，请检查任务要求或稍后重试。"
  nil

def runOrphaned : Schema :=
  phase "orphaned" <|
  field "reason" str "server_restart" <|
  field "detected_at" float (0 : Dyadic)
  nil

/-! Plans and their steps. -/

def planCreated : Schema :=
  phase "created" <|
  required "plan_id" str <|
  required "intent" str <|
  required "steps_summary" str <|
  field "layer_count" int (0 : ℤ) <|
  field "steps" (list (dict any)) []
  nil

def planRevised : Schema :=
  phase "revised" <|
  required "plan_id" str <|
  required "revision_reason" str <|
  field "intent" str "" <|
  field "remaining_steps_summary" str "" <|
  field "steps" (list (dict any)) [] <|
  field "step_tasks" (dict str) .empty
  nil

def planCompleted : Schema :=
  phase "completed" <|
  required "plan_id" str <|
  required "completed_steps" int <|
  field "total_layers" int (0 : ℤ) <|
  field "summary" str ""
  nil

def planFailed : Schema :=
  phase "failed" <|
  required "plan_id" str <|
  required "completed_steps" int <|
  field "total_layers" int (0 : ℤ) <|
  required "final_error" str
  nil

def dagStepStarted : Schema :=
  phase "started" <|
  required "plan_id" str <|
  required "step_id" str <|
  required "tool_name" str <|
  field "depends_on" (list str) []
  nil

def dagStepCompleted : Schema :=
  phase "completed" <|
  required "plan_id" str <|
  required "step_id" str <|
  field "output_summary" str "" <|
  field "status" str "completed" <|
  field "error" optStr none <|
  field "tool_call_id" optStr none
  nil

def dagStepFailed : Schema :=
  phase "failed" <|
  required "plan_id" str <|
  required "step_id" str <|
  required "error" str <|
  field "retryable" bool false <|
  field "tool_name" str "" <|
  field "tool_call_id" optStr none
  nil

def dagStepSkipped : Schema :=
  phase "skipped" <|
  required "plan_id" str <|
  required "step_id" str <|
  field "reason" str "dep_not_normal" <|
  field "tool_name" str ""
  nil

def stepLocalRepairStarted : Schema :=
  phase "started" <|
  required "step_id" str <|
  field "plan_id" str "" <|
  field "repair_round" int (1 : ℤ) <|
  field "budget_remaining" int (0 : ℤ) <|
  field "step_tool" str "" <|
  field "error" optStr none <|
  field "tool_whitelist" (list str) []
  nil

def stepLocalRepairCompleted : Schema :=
  phase "completed" <|
  required "step_id" str <|
  field "plan_id" str "" <|
  field "repair_round" int (1 : ℤ) <|
  field "outcome" (literal ["accepted", "rejected", "exhausted"]) ⟨"rejected", by decide⟩ <|
  field "tool_name" str "" <|
  field "proposed_tool" str "" <|
  field "error" optStr none <|
  field "reason" str ""
  nil

/-! Tool calls and confirmations. -/

def toolCalled : Schema :=
  phase "called" <|
  required "tool_call_id" str <|
  required "tool_name" str <|
  required "input" (dict any) <|
  field "idempotency_key" optStr none <|
  field "step_id" optStr none
  nil

def toolCompleted : Schema :=
  phase "completed" <|
  required "tool_call_id" str <|
  required "tool_name" str <|
  required "output" any <|
  required "duration_ms" int <|
  field "result_type" toolResultType ToolResultType.success <|
  field "error" optStr none <|
  field "step_id" optStr none
  nil

def toolFailed : Schema :=
  phase "failed" <|
  required "tool_call_id" str <|
  required "tool_name" str <|
  required "error" str <|
  field "retryable" bool false <|
  field "step_id" optStr none
  nil

def toolTimeout : Schema :=
  phase "timeout" <|
  required "tool_call_id" str <|
  required "tool_name" str <|
  required "timeout_ms" int <|
  field "step_id" optStr none
  nil

def guardrailTriggered : Schema :=
  phase "blocked" <|
  required "tool_call_id" str <|
  required "tool_name" str <|
  required "guardrail_id" str <|
  required "reason" str <|
  field "step_id" optStr none <|
  field "workspace_id" optStr none
  nil

def outputBlobStored : Schema :=
  phase "output_stored" <|
  required "tool_call_id" str <|
  required "tool_name" str <|
  required "ref" str <|
  required "sha256" str <|
  required "bytes" int <|
  field "summary" str "" <|
  field "truncated" bool true <|
  field "step_id" optStr none <|
  field "workspace_id" optStr none
  nil

def confirmationRequested : Schema :=
  phase "requested" <|
  required "confirmation_id" str <|
  required "tool_call_id" str <|
  required "tool_name" str <|
  required "input" (dict any) <|
  required "idempotency_key" str <|
  field "risk_level" str "medium" <|
  field "step_id" optStr none
  nil

def confirmationReceived : Schema :=
  phase "received" <|
  required "confirmation_id" str <|
  required "confirmed" bool <|
  required "operator_id" str <|
  field "step_id" optStr none
  nil

/-! Context. -/

def contextCheckpointed : Schema :=
  phase "checkpointed" <|
  required "checkpoint_seq" int <|
  required "snapshot_ref" str
  nil

def episodeFields : Schema :=
  required "episode_range" (pair int int) <|
  required "key_decisions" (list str) <|
  required "tools_used" (list str) <|
  required "key_findings" (list str) <|
  required "errors_encountered" (list str) <|
  field "current_plan" optStr none <|
  required "original_event_refs" (list int) <|
  required "title" str <|
  field "summary" str "" <|
  field "importance_score" float (0 : Dyadic) <|
  field "embedding" (optList float) none <|
  field "parent_episode_id" optStr none <|
  field "format" str "structured" <|
  field "preserved_excerpts" (list str) []
  nil

/-- `Episode`. -/
def episode : Codec := model false episodeFields (of_decide_eq_true rfl)

def episodeArchived : Schema :=
  phase "archived" <|
  required "episode" episode <|
  required "keep_recent_count" int <|
  required "archived_event_refs" (list int)
  nil

def contextPruned : Schema :=
  phase "pruned" <|
  required "pruned_event_refs" (list int) <|
  required "pruned_seq_count" int <|
  field "reason" str "lazy_clear"
  nil

/-! Conversations and workspaces. -/

def conversationStarted : Schema :=
  phase "started" <|
  required "conversation_id" str <|
  required "title" str <|
  field "user_id" str "default"
  nil

def conversationMessage : Schema :=
  phase "message" <|
  required "conversation_id" str <|
  required "run_id" str <|
  required "role" str <|
  required "content" str <|
  field "client_request_id" optStr none
  nil

def workspaceCreated : Schema :=
  phase "created" <|
  required "workspace_id" str <|
  required "tenant_id" str <|
  required "name" str <|
  field "description" str "" <|
  required "scope" (dict any) <|
  field "actor" str "operator"
  nil

def workspaceUpdated : Schema :=
  phase "updated" <|
  required "workspace_id" str <|
  required "tenant_id" str <|
  required "changed_fields" (list str) <|
  required "old_values" (dict any) <|
  required "new_values" (dict any) <|
  field "actor" str "operator"
  nil

def workspaceDeleted : Schema :=
  phase "deleted" <|
  required "workspace_id" str <|
  required "tenant_id" str <|
  field "reason" str "" <|
  field "actor" str "operator"
  nil

/-! Diagnostics. -/

def lateEventRejected : Schema :=
  phase "late_event_rejected" <|
  required "seq" int <|
  required "event_type" str <|
  required "reason" str
  nil

def phaseTimedOut : Schema :=
  phase "phase_timeout" <|
  required "timed_out_phase" str <|
  required "budget_ms" int
  nil

def taskCleanupTimeout : Schema :=
  phase "cleanup_timeout" <|
  required "pending_count" int <|
  required "grace_ms" int
  nil

def planRejected : Schema :=
  phase "plan_rejected" <|
  required "stage" (literal ["plan", "revise", "merge", "degenerate", "invariant"]) <|
  required "attempt" int <|
  required "reasons" (list str) <|
  required "recovered" bool
  nil

/-! The classes that are alone in their aggregate have no phase. -/

def agentThought : Schema :=
  required "thought" str <|
  field "tool_choice" optStr none <|
  field "tool_calls" (optList str) none
  nil

def feedbackInjected : Schema :=
  field "feedback_id" str "" <|
  field "source" feedbackSource FeedbackSource.monitor <|
  field "category" feedbackCategory FeedbackCategory.operatorAdvice <|
  required "feedback_text" str <|
  field "priority" (literal ["high", "medium", "low"]) ⟨"medium", by decide⟩ <|
  field "affected_tool" optStr none <|
  field "error_type" optStr none <|
  field "error_detail" optStr none <|
  field "suggestion" optStr none <|
  field "expires_at_seq" optInt none <|
  field "resolves_feedback_id" optStr none <|
  field "consumed_at_seq" optInt none <|
  field "injected_at_seq" optInt none
  nil

def deliveryContractsResolved : Schema :=
  field "contracts" (list deliveryContract) [] <|
  field "source" str "extracted" <|
  field "timed_out" bool false <|
  field "error" optStr none
  nil

end Schema

/-! ### The unions -/

/-- A payload class. -/
inductive PayloadClass where
  | runStarted | runPaused | runResumed | runCompleted | runFailed | runOrphaned
  | planCreated | planRevised | planFailed | planCompleted
  | dagStepStarted | dagStepFailed | dagStepSkipped | dagStepCompleted
  | stepLocalRepairStarted | stepLocalRepairCompleted
  | toolCalled | toolCompleted | toolFailed | toolTimeout | guardrailTriggered | outputBlobStored
  | confirmationRequested | confirmationReceived
  | contextCheckpointed | episodeArchived | contextPruned
  | conversationStarted | conversationMessage
  | workspaceCreated | workspaceUpdated | workspaceDeleted
  | lateEventRejected | phaseTimedOut | taskCleanupTimeout | planRejected
  | agentThought | feedbackInjected | deliveryContractsResolved
deriving DecidableEq

/-- `PAYLOAD_MODEL_MAP`: the members of the union of an aggregate, in order. -/
def payloadModelMap : EventType → List PayloadClass
  | .run => [.runStarted, .runPaused, .runResumed, .runCompleted, .runFailed, .runOrphaned]
  | .plan => [.planCreated, .planRevised, .planFailed, .planCompleted]
  | .step => [.dagStepStarted, .dagStepFailed, .dagStepSkipped, .dagStepCompleted]
  | .stepRepair => [.stepLocalRepairStarted, .stepLocalRepairCompleted]
  | .tool => [.toolCalled, .toolCompleted, .toolFailed, .toolTimeout, .guardrailTriggered,
      .outputBlobStored]
  | .confirmation => [.confirmationRequested, .confirmationReceived]
  | .context => [.contextCheckpointed, .episodeArchived, .contextPruned]
  | .conversation => [.conversationStarted, .conversationMessage]
  | .workspace => [.workspaceCreated, .workspaceUpdated, .workspaceDeleted]
  | .diagnostic => [.lateEventRejected, .phaseTimedOut, .taskCleanupTimeout, .planRejected]
  | .agentThought => [.agentThought]
  | .feedbackInjected => [.feedbackInjected]
  | .deliveryContractsResolved => [.deliveryContractsResolved]

namespace PayloadClass

/-- The `phase` literal of a class. -/
def phase : PayloadClass → Option String
  | .runStarted | .dagStepStarted | .stepLocalRepairStarted | .conversationStarted => some "started"
  | .runPaused => some "paused"
  | .runResumed => some "resumed"
  | .runCompleted | .planCompleted | .dagStepCompleted | .stepLocalRepairCompleted
  | .toolCompleted => some "completed"
  | .runFailed | .planFailed | .dagStepFailed | .toolFailed => some "failed"
  | .runOrphaned => some "orphaned"
  | .planCreated | .workspaceCreated => some "created"
  | .planRevised => some "revised"
  | .dagStepSkipped => some "skipped"
  | .toolCalled => some "called"
  | .toolTimeout => some "timeout"
  | .guardrailTriggered => some "blocked"
  | .outputBlobStored => some "output_stored"
  | .confirmationRequested => some "requested"
  | .confirmationReceived => some "received"
  | .contextCheckpointed => some "checkpointed"
  | .episodeArchived => some "archived"
  | .contextPruned => some "pruned"
  | .conversationMessage => some "message"
  | .workspaceUpdated => some "updated"
  | .workspaceDeleted => some "deleted"
  | .lateEventRejected => some "late_event_rejected"
  | .phaseTimedOut => some "phase_timeout"
  | .taskCleanupTimeout => some "cleanup_timeout"
  | .planRejected => some "plan_rejected"
  | .agentThought | .feedbackInjected | .deliveryContractsResolved => none

section
variable [Py] [Sha256] [Lax]

/-- The fields of a class. -/
def schema : PayloadClass → Schema
  | .runStarted => Schema.runStarted
  | .runPaused => Schema.runPaused
  | .runResumed => Schema.runResumed
  | .runCompleted => Schema.runCompleted
  | .runFailed => Schema.runFailed
  | .runOrphaned => Schema.runOrphaned
  | .planCreated => Schema.planCreated
  | .planRevised => Schema.planRevised
  | .planFailed => Schema.planFailed
  | .planCompleted => Schema.planCompleted
  | .dagStepStarted => Schema.dagStepStarted
  | .dagStepFailed => Schema.dagStepFailed
  | .dagStepSkipped => Schema.dagStepSkipped
  | .dagStepCompleted => Schema.dagStepCompleted
  | .stepLocalRepairStarted => Schema.stepLocalRepairStarted
  | .stepLocalRepairCompleted => Schema.stepLocalRepairCompleted
  | .toolCalled => Schema.toolCalled
  | .toolCompleted => Schema.toolCompleted
  | .toolFailed => Schema.toolFailed
  | .toolTimeout => Schema.toolTimeout
  | .guardrailTriggered => Schema.guardrailTriggered
  | .outputBlobStored => Schema.outputBlobStored
  | .confirmationRequested => Schema.confirmationRequested
  | .confirmationReceived => Schema.confirmationReceived
  | .contextCheckpointed => Schema.contextCheckpointed
  | .episodeArchived => Schema.episodeArchived
  | .contextPruned => Schema.contextPruned
  | .conversationStarted => Schema.conversationStarted
  | .conversationMessage => Schema.conversationMessage
  | .workspaceCreated => Schema.workspaceCreated
  | .workspaceUpdated => Schema.workspaceUpdated
  | .workspaceDeleted => Schema.workspaceDeleted
  | .lateEventRejected => Schema.lateEventRejected
  | .phaseTimedOut => Schema.phaseTimedOut
  | .taskCleanupTimeout => Schema.taskCleanupTimeout
  | .planRejected => Schema.planRejected
  | .agentThought => Schema.agentThought
  | .feedbackInjected => Schema.feedbackInjected
  | .deliveryContractsResolved => Schema.deliveryContractsResolved

theorem names_nodup (c : PayloadClass) : c.schema.names.Nodup := by
  cases c <;> exact of_decide_eq_true rfl

/-- The class, which forbids unknown keys. -/
def codec (c : PayloadClass) : Codec := model true c.schema c.names_nodup

/-- The instances of a class. -/
abbrev Instance (c : PayloadClass) : Type := c.codec.Carrier

/-- The fields of a class with a phase start with it. -/
theorem schema_of_phase {c : PayloadClass} {ph : String} (h : c.phase = some ph) :
    ∃ s, c.schema = Schema.phase ph s := by
  cases c <;> simp only [phase, Option.some.injEq, reduceCtorEq] at h
  all_goals
    subst h
    exact ⟨_, rfl⟩

end

/-- **The phase tells the members of a union apart.** -/
theorem phase_injective {t : EventType} {c c' : PayloadClass} (hc : c ∈ payloadModelMap t)
    (hc' : c' ∈ payloadModelMap t) (h : c.phase = c'.phase) : c = c' := by
  have hnodup : ((payloadModelMap t).map phase).Nodup := by
    cases t <;> decide
  exact List.inj_on_of_nodup_map hnodup hc hc' h

theorem payloadModelMap_nodup (t : EventType) : (payloadModelMap t).Nodup := by
  cases t <;> decide

/-- Only a class that is alone in its aggregate has no phase. -/
theorem phase_isSome {t : EventType} {c c' : PayloadClass} (hc : c ∈ payloadModelMap t)
    (hc' : c' ∈ payloadModelMap t) (hne : c ≠ c') : ∃ ph, c.phase = some ph := by
  have hlen : payloadModelMap t = [c] ∨ ∀ d ∈ payloadModelMap t, ∃ ph, d.phase = some ph := by
    cases t <;> simp only [payloadModelMap, List.mem_singleton] at hc ⊢
    case agentThought | feedbackInjected | deliveryContractsResolved => exact Or.inl (by rw [hc])
    all_goals
      refine Or.inr fun d hd => Option.isSome_iff_exists.mp ?_
      revert d
      decide
  rcases hlen with hone | hall
  · rw [hone, List.mem_singleton] at hc'
    exact absurd hc'.symm hne
  · exact hall c hc

section
variable [Py] [Sha256] [Lax]

/-- The class accepts the input. -/
def accepts (c : PayloadClass) (v : Value) : Bool := (c.codec.validate v).isSome

/-- A dumped instance is rejected by a class with another phase. -/
theorem not_accepts_of_phase_ne {c c' : PayloadClass} {ph ph' : String} (hc : c.phase = some ph)
    (hc' : c'.phase = some ph') (hne : ph ≠ ph') (p : c.Instance) : c'.accepts (c.codec.dump p) = false := by
  obtain ⟨s, hs⟩ := schema_of_phase hc
  obtain ⟨s', hs'⟩ := schema_of_phase hc'
  have hread : c'.schema.read (Obj.get? (c.schema.dump p)) = none :=
    Schema.read_phase_ne hs' (Schema.get?_phase_dump hs p) hne
  have hval : c'.codec.validate (c.codec.dump p) = none := by
    show (if _ then none else c'.schema.read (Obj.get? (c.schema.dump p))) = none
    rw [hread, ite_self]
  rw [accepts, hval]
  rfl

theorem accepts_dump (c : PayloadClass) (p : c.Instance) : c.accepts (c.codec.dump p) = true := by
  rw [accepts, c.codec.validate_dump]
  rfl

/-- **A dumped instance is accepted by its own class only.** -/
theorem accepts_iff {t : EventType} {c c' : PayloadClass} (hc : c ∈ payloadModelMap t)
    (hc' : c' ∈ payloadModelMap t) (p : c.Instance) : c'.accepts (c.codec.dump p) = true ↔ c' = c := by
  constructor
  · intro hacc
    by_contra hne
    obtain ⟨ph, hph⟩ := phase_isSome hc hc' (Ne.symm hne)
    obtain ⟨ph', hph'⟩ := phase_isSome hc' hc hne
    have hdiff : ph ≠ ph' := by
      rintro rfl
      exact hne (phase_injective hc' hc (hph'.trans hph.symm))
    rw [not_accepts_of_phase_ne hph hph' hdiff p] at hacc
    cases hacc
  · rintro rfl
    exact accepts_dump c' p

end

end PayloadClass

/-! ### Parsing -/

theorem filter_eq_singleton {α : Type} {l : List α} (hl : l.Nodup) {a : α} (ha : a ∈ l) {p : α → Bool}
    (hp : ∀ x ∈ l, p x = true ↔ x = a) : l.filter p = [a] := by
  have hmem : ∀ x, x ∈ l.filter p ↔ x = a := by
    intro x
    rw [List.mem_filter]
    constructor
    · rintro ⟨hx, hpx⟩
      exact (hp x hx).mp hpx
    · rintro rfl
      exact ⟨ha, (hp x ha).mpr rfl⟩
  have hperm : (l.filter p).Perm [a] := by
    rw [List.perm_ext_iff_of_nodup (hl.filter p) (List.nodup_singleton a)]
    intro x
    rw [hmem, List.mem_singleton]
  exact List.perm_singleton.mp hperm

/-- Which of the members that accept an input a union takes; of one there is nothing to choose. -/
class SmartUnion (κ : Type) where
  choose : Value → List κ → Option κ
  choose_nil : ∀ v, choose v [] = none
  choose_singleton : ∀ v k, choose v [k] = some k

section parse
variable [Py] [Sha256] [Lax]

/-- A validated payload: an instance of one of the classes. -/
structure ParsedPayload where
  cls : PayloadClass
  value : cls.Instance

/-- `model_dump(mode="json")`. -/
def ParsedPayload.modelDump (p : ParsedPayload) : Value := p.cls.codec.dump p.value

variable [SmartUnion PayloadClass]

/-- `parse_event_payload`; `none` when validation raises. -/
def parseEventPayload (t : EventType) (v : Value) : Option ParsedPayload :=
  (SmartUnion.choose v ((payloadModelMap t).filter (·.accepts v))).bind fun c =>
    (c.codec.validate v).map fun x => ⟨c, x⟩

/-- **A dumped payload is parsed as itself**, whatever the union does with ambiguous input. -/
theorem parseEventPayload_dump {t : EventType} {c : PayloadClass} (hc : c ∈ payloadModelMap t)
    (p : c.Instance) : parseEventPayload t (c.codec.dump p) = some ⟨c, p⟩ := by
  have hfilter : (payloadModelMap t).filter (·.accepts (c.codec.dump p)) = [c] := by
    apply filter_eq_singleton (PayloadClass.payloadModelMap_nodup t) hc
    intro c' hc'
    exact PayloadClass.accepts_iff hc hc' p
  rw [parseEventPayload, hfilter, SmartUnion.choose_singleton, Option.bind_some, c.codec.validate_dump]
  rfl

/-! ### Through the store -/

namespace PayloadText

/-- The columns of a row that hold an event. -/
structure Row where
  eventType : String
  payload : String
deriving DecidableEq

/-- An event as the read paths get it. -/
structure Event where
  eventType : EventType
  payload : Obj
deriving DecidableEq

/-- What `append_event` writes for a payload: `_validate_payload`, then `json.dumps`. -/
def appendedRow (t : EventType) (payload : Value) : Option Row :=
  (parseEventPayload t payload).map fun p =>
    { eventType := t.value, payload := dumps (keepOrder false) p.modelDump }

/-- `_normalize_payload_phase`: a payload without a phase is parsed and dumped again. -/
def normalizePayloadPhase (t : EventType) (payload : Obj) : Obj :=
  if (Obj.get? payload "phase").isSome then payload
  else ((parseEventPayload t (.obj payload)).bind fun p => p.modelDump.asObj?).getD payload

/-- `event_from_row`; `none` for an unknown type and for a payload that is no JSON object. -/
def eventFromRow (parseFloat : String → Option Dyadic) (row : Row) : Option Event :=
  (EventType.ofValue row.eventType).bind fun t =>
    ((jsonLoads parseFloat row.payload).bind Value.asObj?).map fun payload =>
      { eventType := t, payload := normalizePayloadPhase t payload }

/-- `Event.parsed_payload`. -/
def Event.parsedPayload (e : Event) : Option ParsedPayload :=
  parseEventPayload e.eventType (.obj e.payload)

theorem normalizePayloadPhase_dump {t : EventType} {c : PayloadClass} (hc : c ∈ payloadModelMap t)
    (p : c.Instance) : normalizePayloadPhase t (c.schema.dump p) = c.schema.dump p := by
  have hparse : parseEventPayload t (.obj (c.schema.dump p)) = some ⟨c, p⟩ := parseEventPayload_dump hc p
  rw [normalizePayloadPhase, hparse]
  exact ite_self _

/-- The payload that is stored is the payload that is read. -/
theorem eventFromRow_appendedRow {parseFloat : String → Option Dyadic} {t : EventType} {c : PayloadClass}
    (hc : c ∈ payloadModelMap t) (p : c.Instance)
    (hf : ∀ d ∈ (c.codec.dump p).floats, FloatReadable parseFloat d) :
    (appendedRow t (c.codec.dump p)).bind (eventFromRow parseFloat) =
      some { eventType := t, payload := c.schema.dump p } := by
  have hloads := jsonLoads_dumps parseFloat false (c.codec.distinct_dump p) hf
  have hobj : (c.codec.dump p).asObj? = some (c.schema.dump p) := rfl
  rw [appendedRow, parseEventPayload_dump hc, Option.map_some, Option.bind_some, eventFromRow,
    EventType.ofValue_value, Option.bind_some]
  show ((jsonLoads parseFloat (dumps (keepOrder false) (c.codec.dump p))).bind Value.asObj?).map _ = _
  rw [hloads, Option.bind_some, hobj, Option.map_some, normalizePayloadPhase_dump hc]

end PayloadText

end parse

/-! ### An archived episode -/

section sample

/-- One half. -/
def half : Dyadic := .ofIntWithPrec 1 1

/-- The host language, with the decimal forms of zero and one half. -/
@[reducible] def halfPy : Py := { asciiPy with floatRepr := fun d => if d = half then "0.5" else "0.0" }

/-- `float(…)` on these two forms. -/
def parseHalf (s : String) : Option Dyadic :=
  if s = "0.5" then some half else if s = "0.0" then some 0 else none

@[reducible] def noLax : Lax := ⟨fun _ => none, fun _ => none, fun _ => none⟩

@[reducible] def zeroSha : Sha256 where
  hexdigest _ := String.ofList (List.replicate 64 '0')
  length_hexdigest _ := by simp

@[reducible] def firstMember : SmartUnion PayloadClass where
  choose _ l := l.head?
  choose_nil _ := rfl
  choose_singleton _ _ := rfl

attribute [local instance] halfPy noLax zeroSha firstMember

/-- An archived episode with a score and an embedding. -/
def archivedEpisode : PayloadClass.Instance .episodeArchived :=
  (⟨"archived", List.mem_singleton_self _⟩,
    (((3 : ℤ), (9 : ℤ)), ["keep \"a\""], [], [], ["boom\n"], none, [(3 : ℤ), (5 : ℤ)], "第一", "",
      half, some [half, (0 : Dyadic)], none, "structured", [], ()), (4 : ℤ), [(3 : ℤ)], ())

end sample

end JAgent
