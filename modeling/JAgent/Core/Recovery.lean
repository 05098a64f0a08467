import JAgent.Core.Delivery
import JAgent.Core.Fold

/-! # Recovery

Trusted, pure recovery rules: rebuilding the results of a resumed run from the evidence
(`resumeResults`), telling transient failures from others (`isTransient`), and the bounds of
step-local repair (`validateLocalRepair`, `localRepairCandidates`). -/

namespace JAgent

/-! ### Rebuilding results -/

/-- `_EVIDENCE_STATE_MAP`: what was in flight is pending again. -/
def evidenceState : ExecState → ExecState
  | .running => .pending
  | e => e

/-- The result rebuilt from one evidence record. -/
def rebuildResult (sid : String) (ev : StepEvidence) : StepResult :=
  { stepId := sid, execState := evidenceState ev.execState, output := ev.output,
    summary := ev.outputSummary, error := ev.error, toolCallId := ev.toolCallId, probe := ev.probe }

/-- `rebuild_results_from_evidence`. -/
def rebuildResultsFromEvidence (evidence : Evidence) : Results :=
  .ofPairs (evidence.items.map fun kv => (kv.1, rebuildResult kv.1 kv.2))

theorem get?_rebuildResultsFromEvidence {evidence : Evidence} {sid : String} {ev : StepEvidence}
    (h : evidence.get? sid = some ev) :
    (rebuildResultsFromEvidence evidence).get? sid = some (rebuildResult sid ev) := by
  unfold rebuildResultsFromEvidence
  refine Lib.Dict.get?_ofPairs_of_nodup ?_ ?_
  · rw [List.map_map]
    exact evidence.nodup
  · exact List.mem_map.mpr ⟨(sid, ev), Lib.Dict.mem_items_iff.mpr h, rfl⟩

/-- A terminal step recorded under a different tool is run again. -/
def reopenIfToolChanged (plan : DagPlan) (sid : String) (ev : StepEvidence) (r : StepResult) :
    StepResult :=
  match (stepMap plan.steps).get? sid with
  | some step =>
    if r.shouldNotRerun && step.tool ≠ "" && step.tool ≠ ev.toolName then
      { stepId := sid, execState := .pending }
    else r
  | none => r

/-- The results `_execute_plan` starts with: the evidence of the plan's own steps. -/
def resumeResults (plan : DagPlan) (evidence : Evidence) : Results :=
  .ofPairs ((evidence.items.filter fun kv => (stepIds plan.steps).contains kv.1).map fun kv =>
    (kv.1, reopenIfToolChanged plan kv.1 kv.2 (rebuildResult kv.1 kv.2)))

/-- A resumed result is pending or carries the recorded state. -/
theorem resumeResults_get? {plan : DagPlan} {evidence : Evidence} {sid : String} {r : StepResult}
    (h : (resumeResults plan evidence).get? sid = some r) :
    r.execState = .pending ∨ ∃ ev, evidence.get? sid = some ev ∧ r.execState = ev.execState := by
  obtain ⟨⟨k, ev⟩, hkv, he⟩ := List.mem_map.mp (Lib.Dict.mem_of_get?_ofPairs h)
  cases he
  have hev := Lib.Dict.mem_items_iff.mp (List.mem_of_mem_filter hkv)
  have hst : (rebuildResult k ev).execState = .pending ∨
      (rebuildResult k ev).execState = ev.execState := by
    unfold rebuildResult
    cases ev.execState <;> simp [evidenceState]
  unfold reopenIfToolChanged
  split
  · split_ifs
    · exact .inl rfl
    · exact hst.imp_right fun h => ⟨ev, hev, h⟩
  · exact hst.imp_right fun h => ⟨ev, hev, h⟩

/-! ### Transient failures -/

/-- Case folding of the pattern: the letters that match an ASCII letter ignoring case. -/
def foldCase (c : Char) : Char :=
  if c.toNat < 128 then c.toLower
  else if c.toNat = 304 || c.toNat = 305 then 'i'
  else if c.toNat = 383 then 's'
  else if c.toNat = 8490 then 'k'
  else c

/-- Match a lower-case literal at the start of a text; returns the rest. -/
def matchLit : List Char → List Char → Option (List Char)
  | [], s => some s
  | _ :: _, [] => none
  | p :: ps, c :: cs => if foldCase c = p then matchLit ps cs else none

/-- One of the literals starts the text. -/
def startsWithAny (words : List String) (s : List Char) : Bool :=
  words.any fun w => (matchLit w.toList s).isSome

section transient
variable [Py]

/-- `5\d{2}`. -/
def match5xx : List Char → Option (List Char)
  | c :: d :: e :: rest => if c = '5' && isDigitChar d && isDigitChar e then some rest else none
  | _ => none

/-- `.*retry`. -/
def retryInLine : List Char → Bool
  | [] => false
  | c :: cs => startsWithAny ["retry"] (c :: cs) || (c ≠ '\n' && retryInLine cs)

/-- `\b` between two neighbouring characters, the second of which is a word character. -/
def boundary : Option Char → Bool
  | none => true
  | some c => !isWordChar c

/-- One of the alternatives of `_TRANSIENT_PATTERNS` matches here; `prev` is the character
before. -/
def transientAt (prev : Option Char) (s : List Char) : Bool :=
  startsWithAny ["timeout", "timed out", "temporar", "econnreset", "etimedout"] s ||
  (match matchLit "connection".toList s with
    | some r => startsWithAny ["error", "reset", "refused", "aborted"] (r.dropWhile isSpaceChar)
    | none => false) ||
  (match match5xx s with
    | some r => startsWithAny ["status", "error"] (r.dropWhile isSpaceChar) ||
        (boundary prev && boundary r.head?)
    | none => false) ||
  (match matchLit "rate".toList s with
    | some r => startsWithAny ["limit"] r || (match r with
      | c :: r' => c ≠ '\n' && startsWithAny ["limit"] r'
      | [] => false)
    | none => false) ||
  (match matchLit "unavailable".toList s with
    | some r => retryInLine r
    | none => false)

/-- `_TRANSIENT_PATTERNS.search`. -/
def searchTransient : Option Char → List Char → Bool
  | _, [] => false
  | prev, c :: cs => transientAt prev (c :: cs) || searchTransient (some c) cs

def isTransient : Option String → Bool
  | none => false
  | some e => searchTransient none e.toList

inductive FailureTier where
  | toolRetry | stepRepair
deriving DecidableEq

/-- `classify_failure_tier`. -/
def classifyFailureTier (error : Option String) (retryable : Bool) : FailureTier :=
  if retryable || isTransient error then .toolRetry else .stepRepair

end transient

section
attribute [local instance] asciiPy

example : isTransient (some "status_code=503 (op=lt, value=400)") = true ∧
    isTransient (some "Rate-Limit hit") = true ∧ isTransient (some "port 15030 refused") = false := by
  decide +kernel

end

/-! ### Step-local repair -/

structure RecoveryBudget where
  maxRepairRounds : ℕ := 2
  allowedTools : List String := []

/-- A proposal of the planner for a step-local retry action. -/
structure LocalRepairProposal where
  stepId : String
  toolName : String
  input : Obj
deriving DecidableEq

/-- `_is_read_only_action`; `explicit` lists the tools known to be read-only throughout. -/
def isReadOnlyAction [Py] (toolName : String) (toolInput : Obj) (explicit : List String) : Bool :=
  if explicit.contains toolName then true
  else if toolName = "fetch_output" then true
  else if toolName = "http_request" then
    ["GET", "HEAD"].contains (String.ofList
      ((pyStr ((Obj.get? toolInput "method").getD (.str "GET"))).toList.map Char.toUpper))
  else if toolName = "file_op" then
    ["read", "list"].contains (pyStr ((Obj.get? toolInput "operation").getD (.str "")))
  else false

/-- `read_only_tool_map`: neither the tool nor any of its operations has side effects. -/
def readOnlyToolMap (toolDefs : List ToolDefinition) : List String :=
  (toolDefs.filter fun td =>
    td.sideEffects.isEmpty && td.operations.all fun op => op.sideEffects.isEmpty).map
    ToolDefinition.name

/-- `validate_local_repair`: the reason of a rejection, if any. -/
def validateLocalRepair [Py] (proposal : LocalRepairProposal) (roundUsed : ℕ)
    (budget : RecoveryBudget) (readOnlyTools : List String) (originalSignature : String × String) :
    Option String :=
  if budget.maxRepairRounds < roundUsed then
    some ("local repair budget exhausted (round " ++ toString roundUsed ++ " > " ++
      toString budget.maxRepairRounds ++ ")")
  else if proposal.toolName = "" then some "empty repair proposal (no tool)"
  else if !budget.allowedTools.contains proposal.toolName then
    some ("tool '" ++ proposal.toolName ++ "' not in local-repair whitelist")
  else if !isReadOnlyAction proposal.toolName proposal.input readOnlyTools then
    some ("local repair action '" ++ proposal.toolName ++ "' is mutating/side-effecting")
  else if actionSignature proposal.toolName proposal.input = originalSignature then
    some "repair repeats the failed step's identical action — escalate"
  else none

/-- `local_repair_candidates`: failed steps that no contract binds and that are not transient,
ordered by id. -/
def localRepairCandidates [Py] (plan : DagPlan) (results : Results)
    (contracts : List DeliveryContract) : List DagStep :=
  let bound := contracts.flatMap fun c => stepIds (plan.steps.filter fun s =>
    RequiredOperation.stepSatisfies s c.toRequiredOperation)
  (plan.steps.filter fun step =>
    !bound.contains step.id && Results.holdsAt results (fun r =>
      !r.stepNormal && (r.execState = .failed || r.execState = .unsuccessful) &&
        classifyFailureTier r.error r.retryable = .stepRepair) step.id).insertionSort
    (fun s t => s.id ≤ t.id)

theorem mem_localRepairCandidates [Py] {plan : DagPlan} {results : Results}
    {contracts : List DeliveryContract} {step : DagStep}
    (h : step ∈ localRepairCandidates plan results contracts) :
    step ∈ plan.steps ∧ normalAt results step.id = false := by
  unfold localRepairCandidates at h
  rw [List.mem_insertionSort, List.mem_filter, Bool.and_eq_true] at h
  refine ⟨h.1, ?_⟩
  obtain ⟨r, hr, hp⟩ := Results.holdsAt_iff.mp h.2.2
  simp only [Bool.and_eq_true, Bool.not_eq_true'] at hp
  simp [normalAt, Results.holdsAt, hr, hp.1.1]

/-- Replace the action of the step with the proposal's id. -/
def repairStep (stepId : String) (proposal : LocalRepairProposal) (s : DagStep) : DagStep :=
  if s.id = stepId then { s with tool := proposal.toolName, input := proposal.input } else s

/-- The plan with the action of one step replaced. -/
def repairPlan (plan : DagPlan) (stepId : String) (proposal : LocalRepairProposal) : DagPlan :=
  { plan with steps := plan.steps.map (repairStep stepId proposal) }

@[simp] theorem repairStep_id (stepId : String) (proposal : LocalRepairProposal) (s : DagStep) :
    (repairStep stepId proposal s).id = s.id := by
  unfold repairStep
  split_ifs <;> rfl

@[simp] theorem stepIds_repairPlan (plan : DagPlan) (stepId : String)
    (proposal : LocalRepairProposal) :
    stepIds (repairPlan plan stepId proposal).steps = stepIds plan.steps := by
  unfold repairPlan stepIds
  rw [List.map_map]
  exact List.map_congr_left fun s _ => repairStep_id stepId proposal s

end JAgent
