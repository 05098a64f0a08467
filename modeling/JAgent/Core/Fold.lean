import JAgent.Core.DagTypes

/-! # Events and the trusted evidence projection

The events of a run that concern plans, steps and tool calls, and the part of `fold_events`
that projects them to one evidence record per step.  No other part of the fold reads or writes
the evidence.

`applyEvent_execState` is the one fact later proofs need: the recorded state of a step changes
to a finished one only through a "step completed" event of that step. -/

namespace JAgent

/-- One step of a plan blueprint (`plan_steps_to_payload`). -/
structure StepPayload where
  stepId : String
  toolName : String
  input : Obj
  dependsOn : List String
  description : String
  probe : Bool
deriving DecidableEq

def planStepsToPayload (plan : DagPlan) : List StepPayload :=
  plan.steps.map fun s => ⟨s.id, s.tool, s.input, s.dependsOn, s.description, s.probe⟩

inductive RepairOutcome where
  | accepted | rejected | exhausted
deriving DecidableEq

/-- The events of a run.  `other` stands for every event type the evidence ignores. -/
inductive Event where
  | planCreated (planId intent stepsSummary : String) (layerCount : ℕ) (steps : List StepPayload)
  | planRevised (planId revisionReason intent remainingStepsSummary : String)
      (steps : List StepPayload) (stepTasks : List (String × String))
  | planCompleted (planId : String) (completedSteps : ℤ) (totalLayers : ℕ) (summary : String)
  | planFailed (planId : String) (completedSteps : ℤ) (totalLayers : ℕ) (finalError : String)
  | stepStarted (planId stepId toolName : String) (dependsOn : List String)
  | stepCompleted (planId stepId outputSummary : String) (status : ExecState)
      (error toolCallId : Option String)
  | stepFailed (planId stepId error : String) (retryable : Bool) (toolName : String)
      (toolCallId : Option String)
  | stepSkipped (planId stepId reason toolName : String)
  | toolCompleted (toolCallId toolName : String) (output : Value) (stepId : Option String)
  | stepRepairStarted (stepId planId : String) (repairRound budgetRemaining : ℕ) (stepTool : String)
      (error : Option String) (toolWhitelist : List String)
  | stepRepairCompleted (stepId planId : String) (repairRound : ℕ) (outcome : RepairOutcome)
      (toolName proposedTool : String) (error : Option String) (reason : String)
  | runPaused (reason : String)
  | runCompleted (allNormal : Bool)
  | runFailed (error : String)
  | other (kind : String)
deriving DecidableEq

/-- The evidence record of one step. -/
structure StepEvidence where
  stepId : String
  planId : String := ""
  toolName : String := ""
  execState : ExecState := .pending
  dependsOn : List String := []
  outputSummary : String := ""
  error : Option String := none
  toolCallId : Option String := none
  outputRef : Option String := none
  output : Value := .null
  probe : Bool := false
  skipReason : Option String := none
  updatedSeq : ℕ := 0
deriving DecidableEq

abbrev Evidence := Lib.Dict String StepEvidence

/-- Get or create the record of a step. -/
def evidenceOf (evidence : Evidence) (stepId planId : String) (seq : ℕ) : StepEvidence :=
  match evidence.get? stepId with
  | none => { stepId := stepId, planId := planId, updatedSeq := seq }
  | some ev => if planId = "" then ev else { ev with planId := planId }

/-- `p or q` for strings. -/
def orElseStr (p q : String) : String := if p = "" then q else p

/-- `if p: field = p`. -/
def keepIfEmpty (p q : Option String) : Option String :=
  match p with
  | none | some "" => q
  | some s => some s

/-- One step of a blueprint: a changed tool reopens a step that is not finished. -/
def applyBlueprintStep (planId : String) (seq : ℕ) (evidence : Evidence) (s : StepPayload) :
    Evidence :=
  if s.stepId = "" then evidence
  else
    let ev := evidenceOf evidence s.stepId planId seq
    let newTool := orElseStr s.toolName ev.toolName
    let toolChanged := ev.toolName ≠ "" ∧ newTool ≠ ev.toolName ∧ ev.execState ≠ .pending
    let ev' := { ev with toolName := newTool, dependsOn := s.dependsOn, probe := s.probe }
    evidence.set s.stepId
      (if toolChanged ∧ ev.execState ≠ .completed ∧ ev.execState ≠ .idempotent ∧
          ev.execState ≠ .cancelled then
        { ev' with execState := .pending, error := none, outputSummary := "", toolCallId := none }
      else ev')

/-- `_apply_blueprint`. -/
def applyBlueprint (planId : String) (seq : ℕ) (steps : List StepPayload) (evidence : Evidence) :
    Evidence := steps.foldl (applyBlueprintStep planId seq) evidence

/-- The reference of an offloaded output. -/
def blobRef [Py] (output : Value) (old : Option String) : Option String :=
  match output with
  | .obj o => match Obj.get? o "ref", Obj.get? o "sha256" with
    | some ref, some sha => if ref.truthy && sha.truthy then some (pyStr ref) else old
    | _, _ => old
  | _ => old

/-- The effect of one event on the evidence. -/
def applyEvent [Py] (evidence : Evidence) (seq : ℕ) : Event → Evidence
  | .planCreated planId _ _ _ steps => applyBlueprint planId seq steps evidence
  | .planRevised planId _ _ _ steps _ => applyBlueprint planId seq steps evidence
  | .stepStarted planId stepId toolName dependsOn =>
    let ev := evidenceOf evidence stepId planId seq
    evidence.set stepId { ev with
      execState := if ev.execState = .pending then .running else ev.execState
      toolName := orElseStr toolName ev.toolName
      dependsOn := if dependsOn.isEmpty then ev.dependsOn else dependsOn
      updatedSeq := seq }
  | .stepCompleted planId stepId outputSummary status error toolCallId =>
    let ev := evidenceOf evidence stepId planId seq
    evidence.set stepId { ev with
      execState := status
      outputSummary := orElseStr outputSummary ev.outputSummary
      error := keepIfEmpty error ev.error
      toolCallId := keepIfEmpty toolCallId ev.toolCallId
      updatedSeq := seq }
  | .stepFailed planId stepId error _ toolName toolCallId =>
    let ev := evidenceOf evidence stepId planId seq
    evidence.set stepId { ev with
      execState := .failed
      error := some error
      toolName := orElseStr toolName ev.toolName
      toolCallId := keepIfEmpty toolCallId ev.toolCallId
      updatedSeq := seq }
  | .stepSkipped planId stepId reason toolName =>
    let ev := evidenceOf evidence stepId planId seq
    evidence.set stepId { ev with
      execState := .skipped
      skipReason := some reason
      toolName := orElseStr toolName ev.toolName
      updatedSeq := seq }
  | .toolCompleted toolCallId toolName output (some stepId) =>
    if stepId = "" then evidence
    else
      let ev := evidenceOf evidence stepId "" seq
      evidence.set stepId { ev with
        output := output
        toolName := orElseStr toolName ev.toolName
        toolCallId := keepIfEmpty (some toolCallId) ev.toolCallId
        outputRef := blobRef output ev.outputRef }
  | _ => evidence

/-- The loop over the log; the first event has sequence number `seq`. -/
def foldEvidenceFrom [Py] : ℕ → Evidence → List Event → Evidence
  | _, evidence, [] => evidence
  | seq, evidence, e :: es => foldEvidenceFrom (seq + 1) (applyEvent evidence seq e) es

/-- `fold_events(events).step_evidence`. -/
def foldEvidence [Py] (log : List Event) : Evidence := foldEvidenceFrom 1 .empty log

theorem foldEvidenceFrom_append [Py] (es : List Event) (e : Event) : ∀ (seq : ℕ) (evidence : Evidence),
    foldEvidenceFrom seq evidence (es ++ [e]) =
      applyEvent (foldEvidenceFrom seq evidence es) (seq + es.length) e := by
  induction es with
  | nil => exact fun seq evidence => rfl
  | cons e' es ih =>
      intro seq evidence
      rw [List.cons_append, foldEvidenceFrom, ih, foldEvidenceFrom, List.length_cons]
      congr 1
      omega

theorem foldEvidence_append [Py] (log : List Event) (e : Event) :
    foldEvidence (log ++ [e]) = applyEvent (foldEvidence log) (1 + log.length) e :=
  foldEvidenceFrom_append log e 1 .empty

/-! ### How the recorded state of a step changes -/

/-- A state that a step may be given without having been executed to its end. -/
def ExecState.isOpen (e : ExecState) : Prop :=
  e = .pending ∨ e = .running ∨ e = .failed ∨ e = .skipped

/-- The recorded state is the old one, or an open one. -/
def KeptOrOpen (evidence : Evidence) (sid : String) (e : ExecState) : Prop :=
  e.isOpen ∨ ∃ ev, evidence.get? sid = some ev ∧ e = ev.execState

section kept
variable {evidence : Evidence} {sid planId : String} {seq : ℕ} {ev : StepEvidence}

theorem keptOrOpen_of_get? (h : evidence.get? sid = some ev) :
    KeptOrOpen evidence sid ev.execState := .inr ⟨ev, h, rfl⟩

theorem evidenceOf_execState (evidence : Evidence) (sid planId : String) (seq : ℕ) :
    KeptOrOpen evidence sid (evidenceOf evidence sid planId seq).execState := by
  unfold evidenceOf
  cases h : evidence.get? sid with
  | none => exact .inl (.inl rfl)
  | some ev =>
      refine .inr ⟨ev, h, ?_⟩
      simp only
      split_ifs <;> rfl

/-- Writing a record whose state is kept or open keeps every state or opens it. -/
theorem keptOrOpen_set {stepId : String} {ev' : StepEvidence}
    (hev : KeptOrOpen evidence stepId ev'.execState)
    (h : (evidence.set stepId ev').get? sid = some ev) : KeptOrOpen evidence sid ev.execState := by
  rcases Lib.Dict.get?_set_cases h with ⟨rfl, rfl⟩ | ⟨_, h⟩
  · exact hev
  · exact keptOrOpen_of_get? h

theorem applyBlueprintStep_execState {s : StepPayload}
    (h : (applyBlueprintStep planId seq evidence s).get? sid = some ev) :
    KeptOrOpen evidence sid ev.execState := by
  unfold applyBlueprintStep at h
  by_cases h1 : s.stepId = ""
  · rw [if_pos h1] at h
    exact keptOrOpen_of_get? h
  · rw [if_neg h1] at h
    refine keptOrOpen_set ?_ h
    split_ifs
    · exact .inl (.inl rfl)
    · exact evidenceOf_execState evidence s.stepId planId seq

theorem applyBlueprint_execState : ∀ {steps : List StepPayload} {evidence : Evidence},
    (applyBlueprint planId seq steps evidence).get? sid = some ev →
      KeptOrOpen evidence sid ev.execState
  | [], _, h => keptOrOpen_of_get? h
  | s :: steps, evidence, h => by
      have h1 : (applyBlueprint planId seq steps (applyBlueprintStep planId seq evidence s)).get? sid =
        some ev := h
      rcases applyBlueprint_execState h1 with h' | ⟨ev', hev', he⟩
      · exact .inl h'
      · rw [he]
        exact applyBlueprintStep_execState hev'

end kept

/-- **A recorded state is kept, open, or was announced by a "step completed" event** of that
step. -/
theorem applyEvent_execState [Py] {evidence : Evidence} {seq : ℕ} {e : Event} {sid : String}
    {ev : StepEvidence} (h : (applyEvent evidence seq e).get? sid = some ev) :
    KeptOrOpen evidence sid ev.execState ∨
      ∃ planId summary error callId, e = .stepCompleted planId sid summary ev.execState error callId := by
  unfold applyEvent at h
  split at h
  next => exact .inl (applyBlueprint_execState h)
  next => exact .inl (applyBlueprint_execState h)
  next planId stepId _ _ =>
    refine .inl (keptOrOpen_set ?_ h)
    simp only
    split_ifs
    · exact .inl (.inr (.inl rfl))
    · exact evidenceOf_execState evidence stepId planId seq
  next planId stepId summary status error callId =>
    rcases Lib.Dict.get?_set_cases h with ⟨rfl, rfl⟩ | ⟨_, h⟩
    · exact .inr ⟨planId, summary, error, callId, rfl⟩
    · exact .inl (keptOrOpen_of_get? h)
  next => exact .inl (keptOrOpen_set (.inl (.inr (.inr (.inl rfl)))) h)
  next => exact .inl (keptOrOpen_set (.inl (.inr (.inr (.inr rfl)))) h)
  next _ _ _ stepId =>
    by_cases h0 : stepId = ""
    · rw [if_pos h0] at h
      exact .inl (keptOrOpen_of_get? h)
    · rw [if_neg h0] at h
      refine .inl (keptOrOpen_set ?_ h)
      exact evidenceOf_execState evidence stepId "" seq
  next => exact .inl (keptOrOpen_of_get? h)

/-! ### The step an event is about -/

/-- The event is a blueprint: it may touch every record. -/
def Event.isBlueprint : Event → Bool
  | .planCreated .. | .planRevised .. => true
  | _ => false

/-- The step whose recorded state an event may change, blueprints apart. -/
def Event.subject : Event → Option String
  | .stepStarted _ stepId _ _ | .stepCompleted _ stepId _ _ _ _ | .stepFailed _ stepId _ _ _ _
  | .stepSkipped _ stepId _ _ => some stepId
  | _ => none

/-- The end of a step that an event announces. -/
def Event.outcome : Event → Option (String × ExecState)
  | .stepCompleted _ stepId _ status _ _ => some (stepId, status)
  | .stepFailed _ stepId _ _ _ _ => some (stepId, .failed)
  | .stepSkipped _ stepId _ _ => some (stepId, .skipped)
  | _ => none

theorem Event.subject_of_outcome {e : Event} {sid : String} {st : ExecState}
    (h : e.outcome = some (sid, st)) : e.isBlueprint = false ∧ e.subject = some sid := by
  cases e <;> simp_all [Event.outcome, Event.subject, Event.isBlueprint]

section subject
variable {evidence : Evidence} {seq : ℕ} {e : Event} {sid : String} {ev : StepEvidence}

theorem evidenceOf_of_get? (h : evidence.get? sid = some ev) (planId : String) (seq : ℕ) :
    (evidenceOf evidence sid planId seq).execState = ev.execState ∧
      (evidenceOf evidence sid planId seq).probe = ev.probe := by
  unfold evidenceOf
  rw [h]
  simp only
  split_ifs <;> exact ⟨rfl, rfl⟩

/-- The record of a step after an event that is no blueprint. -/
def Framed (evidence' : Evidence) (e : Event) (sid : String) (ev : StepEvidence) : Prop :=
  ∃ ev', evidence'.get? sid = some ev' ∧ ev'.probe = ev.probe ∧
    (e.subject ≠ some sid → ev'.execState = ev.execState)

theorem framed_set {stepId planId : String} {ev' : StepEvidence}
    (hprobe : ev'.probe = (evidenceOf evidence stepId planId seq).probe)
    (hstate : e.subject = some stepId ∨
      ev'.execState = (evidenceOf evidence stepId planId seq).execState)
    (h : evidence.get? sid = some ev) : Framed (evidence.set stepId ev') e sid ev := by
  unfold Framed
  rw [Lib.Dict.get?_set]
  by_cases hs : stepId = sid
  · subst hs
    obtain ⟨h1, h2⟩ := evidenceOf_of_get? h planId seq
    rw [if_pos rfl]
    refine ⟨ev', rfl, by rw [hprobe, h2], fun hne => ?_⟩
    rw [hstate.resolve_left hne, h1]
  · rw [if_neg hs]
    exact ⟨ev, h, rfl, fun _ => rfl⟩

variable [Py]

/-- **An event changes the state of the step it is about only**, and only a blueprint changes a
probe flag. -/
theorem applyEvent_frame (hb : e.isBlueprint = false) (h : evidence.get? sid = some ev) :
    Framed (applyEvent evidence seq e) e sid ev := by
  have hkeep : Framed evidence e sid ev := ⟨ev, h, rfl, fun _ => rfl⟩
  cases e with
  | planCreated => cases hb
  | planRevised => cases hb
  | stepStarted planId stepId toolName dependsOn => exact framed_set rfl (.inl rfl) h
  | stepCompleted planId stepId summary status error callId => exact framed_set rfl (.inl rfl) h
  | stepFailed planId stepId error retryable toolName callId => exact framed_set rfl (.inl rfl) h
  | stepSkipped planId stepId reason toolName => exact framed_set rfl (.inl rfl) h
  | toolCompleted callId toolName output stepId =>
      cases stepId with
      | none => exact hkeep
      | some stepId =>
          unfold applyEvent
          by_cases h0 : stepId = ""
          · simp only [if_pos h0]
            exact hkeep
          · simp only [if_neg h0]
            exact framed_set rfl (.inr rfl) h
  | _ => exact hkeep

/-- **The end of a step is recorded as announced.** -/
theorem applyEvent_outcome {st : ExecState} (he : e.outcome = some (sid, st)) :
    ∃ ev', (applyEvent evidence seq e).get? sid = some ev' ∧ ev'.execState = st := by
  have hset : ∀ ev' : StepEvidence, (evidence.set sid ev').get? sid = some ev' := fun ev' => by
    rw [Lib.Dict.get?_set, if_pos rfl]
  cases e with
  | stepCompleted planId stepId summary status error callId =>
      cases he
      exact ⟨_, hset _, rfl⟩
  | stepFailed planId stepId error retryable toolName callId =>
      cases he
      exact ⟨_, hset _, rfl⟩
  | stepSkipped planId stepId reason toolName =>
      cases he
      exact ⟨_, hset _, rfl⟩
  | _ => cases he

end subject

/-! ### What a blueprint records -/

section blueprint
variable {planId : String} {seq : ℕ} {sid : String}

theorem applyBlueprintStep_get? {evidence : Evidence} {s : StepPayload} (h : s.stepId ≠ "") :
    ∃ ev, (applyBlueprintStep planId seq evidence s).get? s.stepId = some ev ∧ ev.probe = s.probe := by
  unfold applyBlueprintStep
  rw [if_neg h]
  simp only [Lib.Dict.get?_set, if_pos]
  split_ifs <;> exact ⟨_, rfl, rfl⟩

theorem applyBlueprintStep_get?_ne {evidence : Evidence} {s : StepPayload} (h : s.stepId ≠ sid) :
    (applyBlueprintStep planId seq evidence s).get? sid = evidence.get? sid := by
  unfold applyBlueprintStep
  by_cases h0 : s.stepId = ""
  · rw [if_pos h0]
  · rw [if_neg h0]
    simp only [Lib.Dict.get?_set, if_neg h]

theorem applyBlueprint_get?_ne : ∀ {steps : List StepPayload} {evidence : Evidence},
    sid ∉ steps.map StepPayload.stepId →
      (applyBlueprint planId seq steps evidence).get? sid = evidence.get? sid
  | [], _, _ => rfl
  | s :: steps, evidence, h => by
      rw [List.map_cons, List.mem_cons, not_or] at h
      have h1 : applyBlueprint planId seq (s :: steps) evidence =
        applyBlueprint planId seq steps (applyBlueprintStep planId seq evidence s) := rfl
      rw [h1, applyBlueprint_get?_ne h.2, applyBlueprintStep_get?_ne (Ne.symm h.1)]

/-- The new record of a step depends on its old record only. -/
theorem applyBlueprintStep_get?_congr {evidence evidence' : Evidence} {s : StepPayload}
    (h : evidence.get? s.stepId = evidence'.get? s.stepId) :
    (applyBlueprintStep planId seq evidence s).get? s.stepId =
      (applyBlueprintStep planId seq evidence' s).get? s.stepId := by
  unfold applyBlueprintStep evidenceOf
  by_cases h0 : s.stepId = ""
  · rw [if_pos h0, if_pos h0, h]
  · rw [if_neg h0, if_neg h0]
    simp only [Lib.Dict.get?_set, if_pos, h]

/-- **Where ids are not repeated, a blueprint records each step by itself.** -/
theorem applyBlueprint_get?_of_mem : ∀ {steps : List StepPayload} {evidence : Evidence},
    (steps.map StepPayload.stepId).Nodup → ∀ s ∈ steps,
      (applyBlueprint planId seq steps evidence).get? s.stepId =
        (applyBlueprintStep planId seq evidence s).get? s.stepId
  | [], _, _ => by simp
  | p :: steps, evidence, hn => by
      rw [List.map_cons, List.nodup_cons] at hn
      have h1 : applyBlueprint planId seq (p :: steps) evidence =
        applyBlueprint planId seq steps (applyBlueprintStep planId seq evidence p) := rfl
      intro s hs
      rw [h1]
      rcases List.mem_cons.mp hs with rfl | hs
      · exact applyBlueprint_get?_ne hn.1
      · have hne : p.stepId ≠ s.stepId := fun h => hn.1 (h ▸ List.mem_map_of_mem hs)
        rw [applyBlueprint_get?_of_mem hn.2 s hs]
        exact applyBlueprintStep_get?_congr (applyBlueprintStep_get?_ne hne)

/-- **A blueprint without repeated or empty ids records the probe flag of each of its steps.** -/
theorem applyBlueprint_probe {steps : List StepPayload} {evidence : Evidence}
    (hn : (steps.map StepPayload.stepId).Nodup) (hne : ∀ s ∈ steps, s.stepId ≠ "") :
    ∀ s ∈ steps, ∃ ev, (applyBlueprint planId seq steps evidence).get? s.stepId = some ev ∧
      ev.probe = s.probe := by
  intro s hs
  rw [applyBlueprint_get?_of_mem hn s hs]
  exact applyBlueprintStep_get? (hne s hs)

end blueprint
end JAgent
