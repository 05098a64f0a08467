import JAgent.Lib.System
import JAgent.Core.DagExecutor
import JAgent.Tools.FileOp

/-! # The plan scheduler as a transition system

One run of `_execute_plan`: entry validation and layering, the layers with their concurrent
steps and confirmations, step-local repair, revision and merge, the completion gate.  The
control point (`Pc`) holds the local variables of the source, the rest of the state
(`State`) what survives from round to round.

Everything the scheduler does not decide is a `Choice` of the environment: the order in which
the concurrent steps of a layer call the Tool Layer and return, every answer of the Tool Layer,
the operator, the planner's revisions and repair proposals.  A choice is enabled only where the
source can take it; a revision must have passed `Planner.revise`.

`hist` is a ghost: the calls with the results visible to them, the settled steps, and the
plans that were adopted. -/

namespace JAgent

/-- The parts of the scheduler configuration a run reads. -/
structure Config where
  registry : Registry
  toolDefs : List ToolDefinition := []
  runAttemptBudget : ℕ := 5
  maxConfirmRetries : ℕ := 3
  maxReviseRetries : ℕ := 1
  localRepairEnabled : Bool := false
  localRepairMaxRounds : ℕ := 2

/-- What is observed of a run. -/
inductive Obs where
  | call (step : DagStep) (input : Obj) (results : Results)
  | settle (step : DagStep) (result : StepResult)
  | adopt (steps : List DagStep)
  | repair (step : DagStep)

/-- A step task of the running layer. -/
inductive Flight where
  | running (step : DagStep)
  | returned (raw : Raw)

/-- The local variables of one iteration of the loop: `done` and `rest` are the layers before
and after the current position. -/
structure Round where
  planId : String
  completed : List String
  done : List (List String)
  rest : List (List String)
  layerCount : ℕ

/-- Where execution is inside a layer. -/
inductive Phase where
  | gating (todo toSkip : List String)
  | starting (todo toSkip : List String)
  | executing (toRun : List String) (flights : Lib.Dict String Flight)
  | settling (todo : List (String × Raw)) (pending : List (String × String)) (failed : Bool)
  | confirming (todo : List (String × String)) (retries : ℕ)
  | paused (todo : List (String × String)) (retries : ℕ)
  | retrying (todo : List (String × String)) (retries : ℕ) (step : DagStep)
  | retried (todo : List (String × String)) (retries : ℕ) (raw : StepResult)

/-- The two places that repair and revise: after a failed layer, and after all layers. -/
inductive Site where
  | layerFailure
  | notNormal
deriving DecidableEq

def Site.reason : Site → String
  | .layerFailure => "step_failure_revised"
  | .notNormal => "unsuccessful_revised"

/-- Control points. -/
inductive Pc where
  | entry
  | layers (k : Round)
  | inLayer (k : Round) (layer : List String) (phase : Phase)
  | repairing (site : Site) (k : Round) (candidates : List DagStep)
  | revising (site : Site) (k : Round) (attempt : ℕ)
  | merging (site : Site) (k : Round) (revised : DagPlan)
  | announcing (k : Round) (merged : DagPlan)
  | disposing (k : Round) (verdict : CompletionVerdict)
  | failing (error : String)
  | finishing
  | finished (ok : Bool)
  | raised (error : String)

structure State where
  root : DagPlan
  plan : DagPlan
  results : Results
  aliases : Aliases
  selfHealCount : ℕ
  repairRounds : Lib.Dict String ℕ
  contracts : List DeliveryContract
  log : List Event
  hist : List Obs
  pc : Pc

/-- Choices of the environment. -/
inductive Choice where
  | enter (planId : String)
  | tick
  | cancel
  | call (sid : String)
  | ret (sid : String) (outcome : Except String ToolExecutionResult)
  | resume
  | timeout
  | propose (proposal : Option LocalRepairProposal)
  | revise (revised : Option DagPlan)
  | event (e : Event)

/-- `step_aliases` at the start: every step is its own alias. -/
def identityAliases (plan : DagPlan) : Aliases := .ofPairs ((stepIds plan.steps).map fun i => (i, i))

/-- `_execute_plan` is called with a plan and starts from the given results. -/
def State.start (plan : DagPlan) (results : Results) (contracts : List DeliveryContract)
    (log : List Event) (hist : List Obs) : State :=
  { root := plan, plan := plan, results := results, aliases := identityAliases plan,
    selfHealCount := 0, repairRounds := .empty, contracts := contracts, log := log, hist := hist,
    pc := .entry }

/-- A run without history. -/
def State.fresh (plan : DagPlan) (contracts : List DeliveryContract) : State :=
  .start plan .empty contracts [] []

/-- `step_map.get(sid, DagStep(id=sid))`. -/
def stepOr (plan : DagPlan) (sid : String) : DagStep :=
  (plan.steps.find? fun s => s.id = sid).getD { id := sid }

/-- Append events to the log. -/
def State.emit (s : State) (es : List Event) : State := { s with log := s.log ++ es }

/-- Append observations to the ghost history. -/
def State.observe (s : State) (os : List Obs) : State := { s with hist := s.hist ++ os }

section machine
variable [Py] (cfg : Config)

/-! ### Entry -/

/-- The head of the loop: budget, whole-plan validation, layering. -/
def stepEntry (s : State) : Choice → Option State
  | .enter planId =>
    if cfg.runAttemptBudget ≤ s.selfHealCount then
      some { s with pc := .failing ("Self-heal exceeded " ++ toString s.selfHealCount ++
        " attempts — unable to complete plan") }
    else
      let errors := validate cfg.registry s.plan [] []
      if errors.isEmpty then
        let completed := Results.idsWith s.results StepResult.shouldNotRerun
        match topologicalSort s.plan completed (Results.idsWith s.results StepResult.outputAvailable) with
        | .error e => some { s with pc := .raised e.message }
        | .ok layers => some { s.emit [.planCreated planId s.plan.intent
              (toString s.plan.steps.length ++ " steps in " ++ toString layers.length ++ " layers")
              layers.length (planStepsToPayload s.plan)] with
            pc := .layers ⟨planId, completed, [], layers, layers.length⟩ }
      else
        let finalError := join "; " (errors.map PlanError.message)
        some { s.emit [.planFailed planId 0 0 finalError] with pc := .failing finalError }
  | _ => none

/-! ### Completion, repair and revision -/

/-- Where repair starts: at the candidates when it is enabled, else at the revision. -/
def healPc (s : State) (site : Site) (k : Round) : Pc :=
  if cfg.localRepairEnabled then .repairing site k (localRepairCandidates s.plan s.results s.contracts)
  else .revising site k 0

/-- All layers are done: gate, then repair if a step is unsuccessful or skipped. -/
def finishLayers (s : State) (k : Round) : Pc :=
  let verdict := completionGate s.root s.results s.aliases s.contracts
  let open_ := (stepIds s.plan.steps).any fun sid => Results.holdsAt s.results (fun r =>
    r.execState = .unsuccessful || r.execState = .skipped) sid
  if !verdict.mechanicalComplete && open_ then healPc cfg s .notNormal k else .disposing k verdict

/-- Between layers: start the next one, or finish. -/
def stepLayers (s : State) (k : Round) : Choice → Option State
  | .tick => match k.rest with
    | [] => some { s with pc := finishLayers cfg s k }
    | layer :: rest => some { s with pc := .inLayer { k with rest := rest } layer (.gating layer []) }
  | .cancel => if k.rest.isEmpty then none else some { s with pc := .failing "Run cancelled by user" }
  | _ => none

/-- `RecoveryBudget` of the configuration. -/
def localRepairBudget : RecoveryBudget :=
  ⟨max 1 cfg.localRepairMaxRounds, cfg.toolDefs.map ToolDefinition.name⟩

/-- The event that opens a repair round. -/
def repairStarted (s : State) (k : Round) (step : DagStep) (used : ℕ) : Event :=
  let budget := localRepairBudget cfg
  .stepRepairStarted step.id k.planId (used + 1) (budget.maxRepairRounds - used - 1) step.tool
    ((s.results.get? step.id).bind StepResult.error) (budget.allowedTools.insertionSort (· ≤ ·))

/-- The event that closes a repair round. -/
def repairCompleted (s : State) (k : Round) (step : DagStep) (used : ℕ) (outcome : RepairOutcome)
    (proposed reason : String) : Event :=
  .stepRepairCompleted step.id k.planId (used + 1) outcome step.tool proposed
    ((s.results.get? step.id).bind StepResult.error) reason

/-- A repair round that ends without an accepted proposal. -/
def repairRejected (s : State) (site : Site) (k : Round) (step : DagStep) (rest : List DagStep)
    (used : ℕ) (outcome : RepairOutcome) (proposed reason : String) : State :=
  { s.emit [repairStarted cfg s k step used, repairCompleted s k step used outcome proposed reason] with
    repairRounds := s.repairRounds.set step.id (used + 1)
    pc := .repairing site k rest }

/-- An accepted proposal: the step gets the new action and its result is dropped. -/
def repairAccepted (s : State) (k : Round) (step : DagStep) (used : ℕ) (p : LocalRepairProposal) :
    State :=
  { (s.emit [repairStarted cfg s k step used, repairCompleted s k step used .accepted p.toolName
      "accepted within trusted budget"]).observe [.repair (repairStep step.id p step)] with
    repairRounds := s.repairRounds.set step.id (used + 1)
    plan := repairPlan s.plan step.id p
    results := s.results.pop step.id
    selfHealCount := s.selfHealCount + 1
    pc := .entry }

/-- One candidate of `_attempt_step_local_repair`. -/
def stepRepairing (s : State) (site : Site) (k : Round) : List DagStep → Choice → Option State
  | [], .tick => some { s with pc := .revising site k 0 }
  | step :: rest, .tick =>
    let budget := localRepairBudget cfg
    let used := s.repairRounds.getD step.id 0
    if budget.maxRepairRounds ≤ used then some { s with pc := .repairing site k rest }
    else if budget.allowedTools.isEmpty then
      some (repairRejected cfg s site k step rest used .exhausted ""
        "empty read-only whitelist — no repair tool available")
    else none
  | step :: rest, .propose proposal =>
    let budget := localRepairBudget cfg
    let used := s.repairRounds.getD step.id 0
    if budget.maxRepairRounds ≤ used || budget.allowedTools.isEmpty then none
    else match proposal with
      | none => some (repairRejected cfg s site k step rest used .rejected ""
          "planner returned no repair proposal")
      | some p => match validateLocalRepair p (used + 1) budget (readOnlyToolMap cfg.toolDefs)
          (actionSignature step.tool step.input) with
        | some reason => some (repairRejected cfg s site k step rest used .rejected p.toolName reason)
        | none => some (repairAccepted cfg s k step used p)
  | _, _ => none

/-- `Planner.revise` returns only plans without steps, or plans that pass the guardrail in the
context of the run. -/
def plannerAccepts (s : State) (revised : DagPlan) : Bool :=
  revised.steps.isEmpty ||
    (validate cfg.registry revised (Results.idsWith s.results StepResult.shouldNotRerun)
      (Results.idsWith s.results StepResult.outputAvailable)).isEmpty

/-- The merge of a revision into the run. -/
def State.merge (s : State) (revised : DagPlan) : Merge :=
  mergeRevisedPlan s.root s.plan revised s.results s.aliases

/-- The invariant errors of a revision, judged on the merged plan. -/
def invariantErrors (s : State) (revised : DagPlan) : List InvariantError :=
  if revised.steps.isEmpty then []
  else validateRevisionInvariants cfg.registry s.contracts (s.merge revised).plan

/-- The `PlanRevised` event. -/
def planRevisedEvent (site : Site) (k : Round) (results : Results) (revised : DagPlan)
    (summary : String) : Event :=
  Event.planRevised k.planId site.reason revised.intent summary (planStepsToPayload revised)
    ((results.items.filter fun kr => kr.2.taskState ≠ .unknown).map fun kr =>
      (kr.1, kr.2.taskState.value))

/-- `f"{n} steps remaining"`. -/
def remaining (plan : DagPlan) : String := toString plan.steps.length ++ " steps remaining"

/-- `_settle_empty_revised`. -/
def settleEmptyRevised (s : State) (site : Site) (k : Round) (revised : DagPlan) : State :=
  if revised.failed then
    { s.emit [planRevisedEvent site k s.results revised ("task failed: " ++ revised.intent)] with
      pc := .failing ("Task cannot be completed: " ++ revised.intent) }
  else
    let verdict := completionGate s.root s.results s.aliases s.contracts
    let summary := if verdict.mechanicalComplete then "task complete"
      else "NOT complete — unmet: " ++ join ", " (verdict.unmet.map Unmet.label)
    { s.emit [planRevisedEvent site k s.results revised summary] with pc := .disposing k verdict }

/-- The failure text when no revision was produced after a failed layer. -/
def stepsFailedError (s : State) : String :=
  let failed := (s.results.items.filter fun kr =>
    (stepIds s.plan.steps).contains kr.1 && !kr.2.stepNormal).map fun kr =>
      kr.1 ++ ": " ++ errorOr kr.2.error "unknown"
  "Steps failed: " ++ (if failed.isEmpty then "unknown error" else join "; " failed)

/-- One answer of the planner: the two guards reject and retry, or the revision is accepted. -/
def stepRevising (s : State) (site : Site) (k : Round) (attempt : ℕ) : Choice → Option State
  | .revise none => match site with
    | .layerFailure => some { s with pc := .failing (stepsFailedError s) }
    | .notNormal => some { s with
        pc := .disposing k (completionGate s.root s.results s.aliases s.contracts) }
  | .revise (some revised) =>
    if plannerAccepts cfg s revised then
      let degenerate := findDegenerateRevisedSteps s.plan s.results revised
      let invErrors := if degenerate.isEmpty then invariantErrors cfg s revised else []
      if degenerate.isEmpty && invErrors.isEmpty then
        let s := { s with results := mergeStepTasks s.results revised }
        if revised.steps.isEmpty then some (settleEmptyRevised s site k revised)
        else match site with
          | .layerFailure => some { s with pc := .merging site k revised }
          | .notNormal => some { s.emit [planRevisedEvent site k s.results revised (remaining revised)] with
              pc := .merging site k revised }
      else if attempt < cfg.maxReviseRetries then
        some { s with pc := .revising site k (attempt + 1) }
      else some { s with
        pc := .failing (degenerateError degenerate (invErrors.map InvariantError.message)) }
    else none
  | _ => none

/-- The merged plan becomes the current one and the loop starts over. -/
def adopt (s : State) (plan : DagPlan) : State :=
  { s.observe [.adopt plan.steps] with
    plan := plan
    selfHealCount := s.selfHealCount + 1
    pc := .entry }

/-- The merge and its validation. -/
def stepMerging (s : State) (site : Site) (k : Round) (revised : DagPlan) : Choice → Option State
  | .tick =>
    let m := s.merge revised
    let s := { s with results := m.results, aliases := m.aliases }
    let errors := validate cfg.registry m.plan (Results.idsWith m.results StepResult.stepNormal)
      (Results.idsWith m.results StepResult.outputAvailable)
    if errors.isEmpty then
      match site with
      | .layerFailure => some { s with pc := .announcing k m.plan }
      | .notNormal => some (adopt s m.plan)
    else some { s with
      pc := .failing ("Merged revision rejected: " ++ join "; " (errors.map PlanError.message)) }
  | _ => none

/-- `_dispose_completion_verdict`. -/
def stepDisposing (s : State) (k : Round) (verdict : CompletionVerdict) : Choice → Option State
  | .tick =>
    let rootTotal := s.root.steps.length
    let achieved : ℤ := rootTotal - verdict.unmet.length
    let fail := fun finalError => some { s.emit [.planFailed k.planId achieved k.layerCount finalError] with
      pc := .failing finalError }
    if !verdict.mechanicalComplete then
      fail ("Steps not achieved: " ++ join ", " (verdict.unmet.map Unmet.label))
    else if verdict.deliverableStatus = .failed then
      fail ("Deliverable not met: " ++ join ", " ((verdict.deliverables.filter fun v => !v.met).map
        DeliverableVerdict.contractId))
    else some { s.emit [.planCompleted k.planId achieved k.layerCount
        ("Completed " ++ toString achieved ++ "/" ++ toString rootTotal ++ " root steps")] with
          pc := .finishing }
  | _ => none

/-! ### Inside a layer -/

/-- The layer is settled: go on, or repair when it failed. -/
def afterLayer (s : State) (k : Round) (layer : List String) (ok : Bool) : Pc :=
  if ok then .layers { k with done := k.done ++ [layer] } else healPc cfg s .layerFailure k

/-- No step of the layer has a result that is not normal. -/
def layerNormal (s : State) (layer : List String) : Bool :=
  layer.all fun sid => !Results.holdsAt s.results (fun r => !r.stepNormal) sid

/-- Start the call of a step, or note what it returned at once. -/
def launch (s : State) (sid : String) (onCall : DagStep → Pc) (onReturn : StepResult → Pc) : State :=
  match prepareStep cfg.registry s.plan s.results sid with
  | .returned r => { s with pc := onReturn r }
  | .call step input => { s.observe [.call step input s.results] with pc := onCall step }

/-- Record the settled result of one step. -/
def settleState (s : State) (k : Round) (sid : String) (raw : Raw) : State :=
  let st := settle k.planId k.done.length (stepOr s.plan sid).tool sid raw
  { (s.emit st.event.toList).observe [.settle (stepOr s.plan sid) st.result] with
    results := s.results.set sid st.result }

/-- Record the result of a retry after confirmation. -/
def settleRetry (s : State) (k : Round) (sid : String) (raw : StepResult) : State :=
  let event := if raw.finished then Event.stepCompleted k.planId sid raw.summary .completed none none
    else if raw.execState = .skipped then
      .stepSkipped k.planId sid (errorOr raw.error "dep_not_normal") (stepOr s.plan sid).tool
    else .stepFailed k.planId sid (errorOr raw.error "Confirmation result failed") false
      (stepOr s.plan sid).tool none
  { (s.emit [event]).observe [.settle (stepOr s.plan sid) raw] with
    results := s.results.set sid raw }

/-- One move inside a layer. -/
def stepPhase (s : State) (k : Round) (layer : List String) : Phase → Choice → Option State
  | .gating [] toSkip, .tick => some { s with pc := .inLayer k layer (.starting layer toSkip) }
  | .gating (sid :: todo) toSkip, .tick =>
    match s.plan.steps.find? fun t => t.id = sid with
    | none => some { s with pc := .inLayer k layer (.gating todo toSkip) }
    | some step => match gateSkipReason step s.results with
      | none => some { s with pc := .inLayer k layer (.gating todo toSkip) }
      | some reason => some { s.emit [.stepSkipped k.planId sid reason step.tool] with
          results := s.results.set sid (skippedResult sid reason step.probe)
          pc := .inLayer k layer (.gating todo (toSkip ++ [sid])) }
  | .starting [] toSkip, .tick => some { s with
      pc := .inLayer k layer (.executing (layer.filter fun sid => !toSkip.contains sid) .empty) }
  | .starting (sid :: todo) toSkip, .tick =>
    if toSkip.contains sid then some { s with pc := .inLayer k layer (.starting todo toSkip) }
    else match s.plan.steps.find? fun t => t.id = sid with
      | none => some { s with pc := .inLayer k layer (.starting todo toSkip) }
      | some step => some { s.emit [.stepStarted k.planId sid step.tool step.dependsOn] with
          pc := .inLayer k layer (.starting todo toSkip) }
  | .executing toRun flights, .call sid =>
    if toRun.contains sid && (flights.get? sid).isNone then
      some (launch cfg s sid
        (fun step => .inLayer k layer (.executing toRun (flights.set sid (.running step))))
        (fun r => .inLayer k layer (.executing toRun (flights.set sid (.returned (.ok r))))))
    else none
  | .executing toRun flights, .ret sid outcome =>
    match flights.get? sid with
    | some (.running step) => some { s with pc := .inLayer k layer (.executing toRun
        (flights.set sid (.returned (match outcome with
          | .ok r => .ok (dispatch step r)
          | .error msg => .error msg)))) }
    | _ => none
  | .executing toRun flights, .tick =>
    -- `gather`: every task of the layer has returned
    if toRun.all fun sid => match flights.get? sid with
        | some (.returned _) => true
        | _ => false then
      some { s with pc := .inLayer k layer (.settling (toRun.filterMap fun sid =>
        match flights.get? sid with
        | some (.returned raw) => some (sid, raw)
        | _ => none) [] false) }
    else none
  | .settling [] pending failed, .tick =>
    if pending.isEmpty then some { s with pc := afterLayer cfg s k layer (!failed) }
    else some { s with pc := .inLayer k layer (.confirming pending 0) }
  | .settling ((sid, raw) :: todo) pending failed, .tick =>
    let st := settle k.planId k.done.length (stepOr s.plan sid).tool sid raw
    some { settleState s k sid raw with
      pc := .inLayer k layer (.settling todo (match st.pending with
        | some cid => pending ++ [(sid, cid)]
        | none => pending) (failed || st.failed)) }
  | .confirming [] _, .tick =>
    some { s with pc := afterLayer cfg s k layer (layerNormal s layer) }
  | .confirming ((sid, cid) :: todo) retries, .tick =>
    if cfg.maxConfirmRetries ≤ retries then
      some { s with pc := .failing ("Max confirmation retries (" ++ toString cfg.maxConfirmRetries ++
        ") exceeded for step " ++ sid) }
    else some { s.emit [.runPaused "waiting_confirmation"] with
      pc := .inLayer k layer (.paused ((sid, cid) :: todo) retries) }
  | .confirming (_ :: _) _, .cancel => some { s with pc := .failing "Run cancelled by user" }
  | .paused _ _, .cancel => some { s with pc := .failing "Run cancelled by user" }
  | .paused _ _, .timeout => some { s with pc := .failing "Confirmation timed out" }
  | .paused ((sid, cid) :: todo) retries, .resume =>
    some (launch cfg s sid
      (fun step => .inLayer k layer (.retrying ((sid, cid) :: todo) retries step))
      (fun r => .inLayer k layer (.retried ((sid, cid) :: todo) retries r)))
  | .retrying todo retries step, .ret sid outcome =>
    if sid = step.id then match outcome with
      | .ok r => some { s with pc := .inLayer k layer (.retried todo retries (dispatch step r)) }
      | .error msg => some { s with pc := .raised msg }
    else none
  | .retried ((sid, cid) :: todo) retries raw, .tick =>
    if !raw.finished && raw.confirmationId.isSome then
      some { s with pc := .inLayer k layer (.confirming ((sid, cid) :: todo) (retries + 1)) }
    else some { settleRetry s k sid raw with pc := .inLayer k layer (.confirming todo 0) }
  | _, _ => none

/-! ### The step function -/

/-- Events written by other components, which the scheduler does not order. -/
def isForeign : Event → Bool
  | .toolCompleted .. | .other .. => true
  | _ => false

/-- The run has ended. -/
def Pc.terminal : Pc → Bool
  | .finished _ | .raised _ => true
  | _ => false

/-- The run has ended with the given outcome. -/
def Pc.endedWith (ok : Bool) : Pc → Bool
  | .finished ok' => ok' = ok
  | _ => false

/-- One move of a run. -/
def step (s : State) (c : Choice) : Option State :=
  match c with
  | .event e => if isForeign e && !s.pc.terminal then some (s.emit [e]) else none
  | c => match s.pc with
    | .entry => stepEntry cfg s c
    | .layers k => stepLayers cfg s k c
    | .inLayer k layer phase => stepPhase cfg s k layer phase c
    | .repairing site k candidates => stepRepairing cfg s site k candidates c
    | .revising site k attempt => stepRevising cfg s site k attempt c
    | .merging site k revised => stepMerging cfg s site k revised c
    | .announcing k merged => match c with
      | .tick => some (adopt (s.emit [planRevisedEvent .layerFailure k s.results merged
          (remaining merged)]) merged)
      | _ => none
    | .disposing k verdict => stepDisposing s k verdict c
    | .failing error => match c with
      | .tick => some { s.emit [.runFailed error] with pc := .finished false }
      | _ => none
    | .finishing => match c with
      | .tick => some { s.emit [.runCompleted true] with pc := .finished true }
      | _ => none
    | .finished _ => none
    | .raised _ => none

end machine

theorem Pc.endedWith_iff {ok : Bool} {pc : Pc} : pc.endedWith ok = true ↔ pc = .finished ok := by
  cases pc <;> simp [Pc.endedWith]

/-! ### Scripts -/

/-- The choices that take a layer of `size` steps from start to end, when the Tool Layer is
called for the given steps one after the other and answers as given. -/
def playLayer (size : ℕ) (answers : List (String × ToolExecutionResult)) : List Choice :=
  List.replicate (2 * size + 3) Choice.tick ++
    answers.flatMap (fun a => [Choice.call a.1, .ret a.1 (.ok a.2)]) ++
    List.replicate (answers.length + 2) Choice.tick

/-- A configuration whose only tool is `file_op`. -/
def fileConfig : Config := { registry := .ofDefs [fileOp], toolDefs := [fileOp] }

/-- A step that applies a file operation to a path. -/
def fileStep (id operation path : String) (dependsOn : List String) : DagStep :=
  { id := id, tool := "file_op", input := [("operation", .str operation), ("path", .str path)],
    dependsOn := dependsOn }

/-- A step that writes a text, which may hold references, to a path. -/
def writeStep (id path content : String) (dependsOn : List String) : DagStep :=
  { id := id, tool := "file_op", dependsOn := dependsOn
    input := [("operation", .str "write"), ("path", .str path), ("content", .str content)] }

/-- An answer of the Tool Layer with the given output. -/
def answered (output : Value) : ToolExecutionResult :=
  { status := .completed, toolCallId := "call", output := output }

/-- An answer of the Tool Layer that reports a failed call. -/
def refused (error : String) : ToolExecutionResult :=
  { status := .failed, toolCallId := "call", error := some error }

end JAgent
