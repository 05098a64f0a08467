import JAgent.Scheduler.Machine

/-! # The moves, one by one

The step function of the scheduler is read here once.  For each of its parts a relation lists the ways
through that part, one constructor for each, with the guards on the way and the state it leads to; a
lemma shows that there is no other way.  What is proved about single moves goes by cases on these
relations, so that a change of the scheduler is met here and in the cases it adds. -/

namespace JAgent
section moves
variable [Py] (cfg : Config)

/-- The ways through the head of the loop. -/
inductive EntryMove (s : State) : Choice → State → Prop
  | exhausted (planId : String) : cfg.runAttemptBudget ≤ s.selfHealCount →
      EntryMove s (.enter planId) { s with
        pc := .failing ("Self-heal exceeded " ++ toString s.selfHealCount ++
          " attempts — unable to complete plan") }
  | unsorted (planId : String) {e : SortError} :
      topologicalSort s.plan (Results.idsWith s.results StepResult.shouldNotRerun)
        (Results.idsWith s.results StepResult.outputAvailable) = .error e →
      EntryMove s (.enter planId) { s with pc := .raised e.message }
  | start (planId : String) {layers : List (List String)} : s.selfHealCount < cfg.runAttemptBudget →
      validate cfg.registry s.plan [] [] = [] →
      topologicalSort s.plan (Results.idsWith s.results StepResult.shouldNotRerun)
        (Results.idsWith s.results StepResult.outputAvailable) = .ok layers →
      EntryMove s (.enter planId) { s.emit [.planCreated planId s.plan.intent
          (toString s.plan.steps.length ++ " steps in " ++ toString layers.length ++ " layers")
          layers.length (planStepsToPayload s.plan)] with
        pc := .layers ⟨planId, Results.idsWith s.results StepResult.shouldNotRerun, [], layers,
          layers.length⟩ }
  | invalid (planId : String) {error : String} :
      error = join "; " ((validate cfg.registry s.plan [] []).map PlanError.message) →
      EntryMove s (.enter planId) { s.emit [.planFailed planId 0 0 error] with pc := .failing error }

/-- The ways on between two layers. -/
inductive LayersMove (s : State) (k : Round) : Choice → State → Prop
  | finish : k.rest = [] → LayersMove s k .tick { s with pc := finishLayers cfg s k }
  | next {layer : List String} {rest : List (List String)} : k.rest = layer :: rest →
      LayersMove s k .tick { s with pc := .inLayer { k with rest := rest } layer (.gating layer []) }
  | cancel : k.rest ≠ [] → LayersMove s k .cancel { s with pc := .failing "Run cancelled by user" }

/-- The ways on inside a layer. -/
inductive PhaseStep (s : State) (k : Round) (layer : List String) : Phase → Choice → State → Prop
  | gateDone (toSkip : List String) : PhaseStep s k layer (.gating [] toSkip) .tick
      { s with pc := .inLayer k layer (.starting layer toSkip) }
  | gatePass {sid : String} (todo toSkip : List String) :
      (∀ step, s.plan.steps.find? (fun t => t.id = sid) = some step →
        gateSkipReason step s.results = none) →
      PhaseStep s k layer (.gating (sid :: todo) toSkip) .tick
        { s with pc := .inLayer k layer (.gating todo toSkip) }
  | gateSkip {sid : String} (todo toSkip : List String) {step : DagStep} {reason : String} :
      s.plan.steps.find? (fun t => t.id = sid) = some step → gateSkipReason step s.results = some reason →
      PhaseStep s k layer (.gating (sid :: todo) toSkip) .tick
        { s.emit [.stepSkipped k.planId sid reason step.tool] with
          results := s.results.set sid (skippedResult sid reason step.probe)
          pc := .inLayer k layer (.gating todo (toSkip ++ [sid])) }
  | startDone (toSkip : List String) : PhaseStep s k layer (.starting [] toSkip) .tick
      { s with pc := .inLayer k layer (.executing (layer.filter fun sid => !toSkip.contains sid) .empty) }
  | startPass {sid : String} (todo : List String) {toSkip : List String} :
      sid ∈ toSkip ∨ s.plan.steps.find? (fun t => t.id = sid) = none →
      PhaseStep s k layer (.starting (sid :: todo) toSkip) .tick
        { s with pc := .inLayer k layer (.starting todo toSkip) }
  | start {sid : String} (todo : List String) {toSkip : List String} {step : DagStep} : sid ∉ toSkip →
      s.plan.steps.find? (fun t => t.id = sid) = some step →
      PhaseStep s k layer (.starting (sid :: todo) toSkip) .tick
        { s.emit [.stepStarted k.planId sid step.tool step.dependsOn] with
          pc := .inLayer k layer (.starting todo toSkip) }
  | call {toRun : List String} {flights : Lib.Dict String Flight} {sid : String} : sid ∈ toRun →
      flights.get? sid = none →
      PhaseStep s k layer (.executing toRun flights) (.call sid) (launch cfg s sid
        (fun step => .inLayer k layer (.executing toRun (flights.set sid (.running step))))
        (fun r => .inLayer k layer (.executing toRun (flights.set sid (.returned (.ok r))))))
  | ret {toRun : List String} {flights : Lib.Dict String Flight} {sid : String} {step : DagStep}
      (r : ToolExecutionResult) : flights.get? sid = some (.running step) →
      PhaseStep s k layer (.executing toRun flights) (.ret sid (.ok r))
        { s with pc := .inLayer k layer (.executing toRun
            (flights.set sid (.returned (.ok (dispatch step r))))) }
  | retError {toRun : List String} {flights : Lib.Dict String Flight} {sid : String} {step : DagStep}
      (msg : String) : flights.get? sid = some (.running step) →
      PhaseStep s k layer (.executing toRun flights) (.ret sid (.error msg))
        { s with pc := .inLayer k layer (.executing toRun (flights.set sid (.returned (.error msg)))) }
  | gather {toRun : List String} {flights : Lib.Dict String Flight} {todo : List (String × Raw)} :
      todo.map Prod.fst = toRun →
      (∀ sid raw, (sid, raw) ∈ todo → flights.get? sid = some (.returned raw)) →
      PhaseStep s k layer (.executing toRun flights) .tick
        { s with pc := .inLayer k layer (.settling todo [] false) }
  | settled (failed : Bool) : PhaseStep s k layer (.settling [] [] failed) .tick
      { s with pc := afterLayer cfg s k layer (!failed) }
  | suspend {pending : List (String × String)} (failed : Bool) : pending ≠ [] →
      PhaseStep s k layer (.settling [] pending failed) .tick
        { s with pc := .inLayer k layer (.confirming pending 0) }
  | settle (sid : String) (raw : Raw) (todo : List (String × Raw)) (pending : List (String × String))
      (failed : Bool) : PhaseStep s k layer (.settling ((sid, raw) :: todo) pending failed) .tick
      { settleState s k sid raw with
        pc := .inLayer k layer (.settling todo
          (match (settle k.planId k.done.length (stepOr s.plan sid).tool sid raw).pending with
            | some cid => pending ++ [(sid, cid)]
            | none => pending)
          (failed || (settle k.planId k.done.length (stepOr s.plan sid).tool sid raw).failed)) }
  | confirmed (retries : ℕ) : PhaseStep s k layer (.confirming [] retries) .tick
      { s with pc := afterLayer cfg s k layer (layerNormal s layer) }
  | giveUp (sid cid : String) (todo : List (String × String)) {retries : ℕ} :
      cfg.maxConfirmRetries ≤ retries →
      PhaseStep s k layer (.confirming ((sid, cid) :: todo) retries) .tick
        { s with pc := .failing ("Max confirmation retries (" ++ toString cfg.maxConfirmRetries ++
          ") exceeded for step " ++ sid) }
  | pause (sid cid : String) (todo : List (String × String)) {retries : ℕ} :
      retries < cfg.maxConfirmRetries →
      PhaseStep s k layer (.confirming ((sid, cid) :: todo) retries) .tick
        { s.emit [.runPaused "waiting_confirmation"] with
          pc := .inLayer k layer (.paused ((sid, cid) :: todo) retries) }
  | cancelConfirming (p : String × String) (todo : List (String × String)) (retries : ℕ) :
      PhaseStep s k layer (.confirming (p :: todo) retries) .cancel
        { s with pc := .failing "Run cancelled by user" }
  | cancelPaused (todo : List (String × String)) (retries : ℕ) :
      PhaseStep s k layer (.paused todo retries) .cancel { s with pc := .failing "Run cancelled by user" }
  | timeout (todo : List (String × String)) (retries : ℕ) :
      PhaseStep s k layer (.paused todo retries) .timeout
        { s with pc := .failing "Confirmation timed out" }
  | resume (sid cid : String) (todo : List (String × String)) (retries : ℕ) :
      PhaseStep s k layer (.paused ((sid, cid) :: todo) retries) .resume (launch cfg s sid
        (fun step => .inLayer k layer (.retrying ((sid, cid) :: todo) retries step))
        (fun r => .inLayer k layer (.retried ((sid, cid) :: todo) retries r)))
  | retryRet (todo : List (String × String)) (retries : ℕ) (step : DagStep) (r : ToolExecutionResult) :
      PhaseStep s k layer (.retrying todo retries step) (.ret step.id (.ok r))
        { s with pc := .inLayer k layer (.retried todo retries (dispatch step r)) }
  | retryError (todo : List (String × String)) (retries : ℕ) (step : DagStep) (msg : String) :
      PhaseStep s k layer (.retrying todo retries step) (.ret step.id (.error msg))
        { s with pc := .raised msg }
  | again (sid cid : String) (todo : List (String × String)) (retries : ℕ) {raw : StepResult} :
      (!raw.finished && raw.confirmationId.isSome) = true →
      PhaseStep s k layer (.retried ((sid, cid) :: todo) retries raw) .tick
        { s with pc := .inLayer k layer (.confirming ((sid, cid) :: todo) (retries + 1)) }
  | settleRetry (sid cid : String) (todo : List (String × String)) (retries : ℕ) {raw : StepResult} :
      (!raw.finished && raw.confirmationId.isSome) = false →
      PhaseStep s k layer (.retried ((sid, cid) :: todo) retries raw) .tick
        { settleRetry s k sid raw with pc := .inLayer k layer (.confirming todo 0) }

/-- The ways on at a candidate of the local repair. -/
inductive RepairMove (s : State) (site : Site) (k : Round) : List DagStep → Choice → State → Prop
  | none : RepairMove s site k [] .tick { s with pc := .revising site k 0 }
  | spent {step : DagStep} (rest : List DagStep) :
      (localRepairBudget cfg).maxRepairRounds ≤ s.repairRounds.getD step.id 0 →
      RepairMove s site k (step :: rest) .tick { s with pc := .repairing site k rest }
  | reject (step : DagStep) (rest : List DagStep) (c : Choice) (outcome : RepairOutcome)
      (proposed reason : String) : outcome ≠ .accepted →
      RepairMove s site k (step :: rest) c (repairRejected cfg s site k step rest
        (s.repairRounds.getD step.id 0) outcome proposed reason)
  | accept {step : DagStep} (rest : List DagStep) {p : LocalRepairProposal} :
      validateLocalRepair p (s.repairRounds.getD step.id 0 + 1) (localRepairBudget cfg)
        (readOnlyToolMap cfg.toolDefs) (actionSignature step.tool step.input) = Option.none →
      RepairMove s site k (step :: rest) (.propose (some p))
        (repairAccepted cfg s k step (s.repairRounds.getD step.id 0) p)

/-- The ways on after an answer of the planner. -/
inductive ReviseMove (s : State) (site : Site) (k : Round) (attempt : ℕ) : Choice → State → Prop
  | noneAfterFailure : site = .layerFailure →
      ReviseMove s site k attempt (.revise none) { s with pc := .failing (stepsFailedError s) }
  | noneAfterLayers : site = .notNormal →
      ReviseMove s site k attempt (.revise none) { s with
        pc := .disposing k (completionGate s.root s.results s.aliases s.contracts) }
  | empty {revised : DagPlan} : plannerAccepts cfg s revised = true → revised.steps = [] →
      ReviseMove s site k attempt (.revise (some revised)) (settleEmptyRevised
        { s with results := mergeStepTasks s.results revised } site k revised)
  | mergeAfterFailure {revised : DagPlan} : site = .layerFailure → plannerAccepts cfg s revised = true →
      findDegenerateRevisedSteps s.plan s.results revised = [] → invariantErrors cfg s revised = [] →
      revised.steps ≠ [] →
      ReviseMove s site k attempt (.revise (some revised)) { s with
        results := mergeStepTasks s.results revised
        pc := .merging site k revised }
  | mergeAfterLayers {revised : DagPlan} : site = .notNormal → plannerAccepts cfg s revised = true →
      findDegenerateRevisedSteps s.plan s.results revised = [] → invariantErrors cfg s revised = [] →
      revised.steps ≠ [] →
      ReviseMove s site k attempt (.revise (some revised)) { s with
        log := s.log ++ [planRevisedEvent site k (mergeStepTasks s.results revised) revised
          (remaining revised)]
        results := mergeStepTasks s.results revised
        pc := .merging site k revised }
  | retry (revised : DagPlan) : attempt < cfg.maxReviseRetries →
      ReviseMove s site k attempt (.revise (some revised)) { s with pc := .revising site k (attempt + 1) }
  | giveUp (revised : DagPlan) (error : String) : cfg.maxReviseRetries ≤ attempt →
      ReviseMove s site k attempt (.revise (some revised)) { s with pc := .failing error }

/-- The ways through a merge. -/
inductive MergeMove (s : State) (site : Site) (k : Round) (revised : DagPlan) : State → Prop
  | announce : site = .layerFailure →
      validate cfg.registry (s.merge revised).plan
        (Results.idsWith (s.merge revised).results StepResult.stepNormal)
        (Results.idsWith (s.merge revised).results StepResult.outputAvailable) = [] →
      MergeMove s site k revised { s with
        results := (s.merge revised).results
        aliases := (s.merge revised).aliases
        pc := .announcing k (s.merge revised).plan }
  | adopt : site = .notNormal →
      validate cfg.registry (s.merge revised).plan
        (Results.idsWith (s.merge revised).results StepResult.stepNormal)
        (Results.idsWith (s.merge revised).results StepResult.outputAvailable) = [] →
      MergeMove s site k revised (JAgent.adopt { s with
        results := (s.merge revised).results
        aliases := (s.merge revised).aliases } (s.merge revised).plan)
  | reject (error : String) : MergeMove s site k revised { s with
      results := (s.merge revised).results
      aliases := (s.merge revised).aliases
      pc := .failing error }

/-- The disposal of a verdict: the plan fails or is completed. -/
inductive DisposeMove (s : State) (k : Round) : State → Prop
  | fail (achieved : ℤ) (error : String) : DisposeMove s k
      { s.emit [.planFailed k.planId achieved k.layerCount error] with pc := .failing error }
  | complete (achieved : ℤ) (summary : String) : DisposeMove s k
      { s.emit [.planCompleted k.planId achieved k.layerCount summary] with pc := .finishing }

/-- Everything a move can do. -/
inductive SchedulerMove (s : State) : Choice → State → Prop
  | foreign {e : Event} : isForeign e = true → s.pc.terminal = false →
      SchedulerMove s (.event e) (s.emit [e])
  | entry {c : Choice} {t : State} : s.pc = .entry → EntryMove cfg s c t → SchedulerMove s c t
  | layers {c : Choice} {t : State} {k : Round} : s.pc = .layers k → LayersMove cfg s k c t →
      SchedulerMove s c t
  | phase {c : Choice} {t : State} {k : Round} {layer : List String} {ph : Phase} :
      s.pc = .inLayer k layer ph → PhaseStep cfg s k layer ph c t → SchedulerMove s c t
  | repair {c : Choice} {t : State} {site : Site} {k : Round} {candidates : List DagStep} :
      s.pc = .repairing site k candidates → RepairMove cfg s site k candidates c t → SchedulerMove s c t
  | revise {c : Choice} {t : State} {site : Site} {k : Round} {attempt : ℕ} :
      s.pc = .revising site k attempt → ReviseMove cfg s site k attempt c t → SchedulerMove s c t
  | merge {t : State} {site : Site} {k : Round} {revised : DagPlan} :
      s.pc = .merging site k revised → MergeMove cfg s site k revised t → SchedulerMove s .tick t
  | announce {k : Round} {merged : DagPlan} : s.pc = .announcing k merged →
      SchedulerMove s .tick (adopt (s.emit [planRevisedEvent .layerFailure k s.results merged
        (remaining merged)]) merged)
  | dispose {t : State} {k : Round} {verdict : CompletionVerdict} :
      s.pc = .disposing k verdict → DisposeMove s k t → SchedulerMove s .tick t
  | fail {error : String} : s.pc = .failing error →
      SchedulerMove s .tick { s.emit [.runFailed error] with pc := .finished false }
  | finish : s.pc = .finishing →
      SchedulerMove s .tick { s.emit [.runCompleted true] with pc := .finished true }

end moves

/-! ### There is no other way -/

section inversion
variable [Py] {cfg : Config} {s t : State} {c : Choice} {site : Site} {k : Round}

theorem entryMove_of_step (h : stepEntry cfg s c = some t) : EntryMove cfg s c t := by
  unfold stepEntry at h
  split at h
  next planId =>
    by_cases hb : cfg.runAttemptBudget ≤ s.selfHealCount
    · rw [if_pos hb] at h
      cases h
      exact .exhausted planId hb
    rw [if_neg hb] at h
    simp only at h
    split_ifs at h with hv
    · rw [List.isEmpty_iff] at hv
      split at h
      next e he =>
        cases h
        exact .unsorted planId he
      next layers hl =>
        cases h
        exact .start planId (Nat.not_le.mp hb) hv hl
    · cases h
      exact .invalid planId rfl
  next => cases h

theorem layersMove_of_step (h : stepLayers cfg s k c = some t) : LayersMove cfg s k c t := by
  unfold stepLayers at h
  split at h
  next =>
    split at h
    next hr =>
      cases h
      exact .finish hr
    next layer rest hr =>
      cases h
      exact .next hr
  next =>
    split_ifs at h with hr
    cases h
    rw [List.isEmpty_iff] at hr
    exact .cancel hr
  next => cases h

omit [Py] in
/-- The answers that are gathered are those of the steps of the layer. -/
theorem gathered {toRun : List String} {flights : Lib.Dict String Flight}
    (h : (toRun.all fun sid => match flights.get? sid with
      | some (.returned _) => true
      | _ => false) = true) :
    (toRun.filterMap fun sid => match flights.get? sid with
      | some (.returned raw) => some (sid, raw)
      | _ => none).map Prod.fst = toRun := by
  induction toRun with
  | nil => rfl
  | cons sid toRun ih =>
      rw [List.all_cons, Bool.and_eq_true] at h
      split at h
      next raw hraw =>
        simp only [List.filterMap_cons, hraw, List.map_cons]
        rw [ih h.2]
      next => simp at h

omit [Py] in
theorem returned_of_gathered {toRun : List String} {flights : Lib.Dict String Flight} {sid : String}
    {raw : Raw} (h : (sid, raw) ∈ toRun.filterMap fun sid => match flights.get? sid with
      | some (.returned raw) => some (sid, raw)
      | _ => none) : flights.get? sid = some (.returned raw) := by
  obtain ⟨x, _, hx⟩ := List.mem_filterMap.mp h
  split at hx
  next raw' hraw =>
    cases hx
    exact hraw
  next => cases hx

theorem phaseStep_of_step {layer : List String} {ph : Phase} (h : stepPhase cfg s k layer ph c = some t) :
    PhaseStep cfg s k layer ph c t := by
  unfold stepPhase at h
  split at h
  next toSkip =>
    cases h
    exact .gateDone toSkip
  next sid todo toSkip =>
    split at h
    next hnone =>
      cases h
      exact .gatePass todo toSkip fun step hstep => by rw [hnone] at hstep; cases hstep
    next step hstep =>
      split at h
      next hreason =>
        cases h
        refine .gatePass todo toSkip fun step' hstep' => ?_
        rw [hstep] at hstep'
        cases hstep'
        exact hreason
      next reason hreason =>
        cases h
        exact .gateSkip todo toSkip hstep hreason
  next toSkip =>
    cases h
    exact .startDone toSkip
  next sid todo toSkip =>
    split_ifs at h with hskip
    · cases h
      exact .startPass todo (.inl (List.contains_iff_mem.mp hskip))
    · split at h
      next hnone =>
        cases h
        exact .startPass todo (.inr hnone)
      next step hstep =>
        cases h
        exact .start todo (fun hmem => hskip (List.contains_iff_mem.mpr hmem)) hstep
  next toRun flights sid =>
    split_ifs at h with hg
    cases h
    rw [Bool.and_eq_true, List.contains_iff_mem, Option.isNone_iff_eq_none] at hg
    exact .call hg.1 hg.2
  next toRun flights sid outcome =>
    split at h
    next step hf =>
      cases h
      cases outcome with
      | ok r => exact .ret r hf
      | error msg => exact .retError msg hf
    next => cases h
  next toRun flights =>
    split_ifs at h with hall
    cases h
    exact .gather (gathered hall) fun sid raw hmem => returned_of_gathered hmem
  next pending failed =>
    split_ifs at h with hp
    · cases h
      rw [List.isEmpty_iff] at hp
      subst hp
      exact .settled failed
    · cases h
      rw [List.isEmpty_iff] at hp
      exact .suspend failed hp
  next sid raw todo pending failed =>
    cases h
    exact .settle sid raw todo pending failed
  next retries =>
    cases h
    exact .confirmed retries
  next sid cid todo retries =>
    split_ifs at h with hretries
    · cases h
      exact .giveUp sid cid todo hretries
    · cases h
      exact .pause sid cid todo (Nat.not_le.mp hretries)
  next p todo retries =>
    cases h
    exact .cancelConfirming p todo retries
  next todo retries =>
    cases h
    exact .cancelPaused todo retries
  next todo retries =>
    cases h
    exact .timeout todo retries
  next sid cid todo retries =>
    cases h
    exact .resume sid cid todo retries
  next todo retries step sid outcome =>
    split_ifs at h with hid
    subst hid
    split at h
    next r =>
      cases h
      exact .retryRet todo retries step r
    next msg =>
      cases h
      exact .retryError todo retries step msg
  next sid cid todo retries raw =>
    split_ifs at h with hagain
    · cases h
      exact .again sid cid todo retries hagain
    · cases h
      exact .settleRetry sid cid todo retries (Bool.eq_false_iff.mpr hagain)
  next => cases h

theorem repairMove_of_step {candidates : List DagStep} (h : stepRepairing cfg s site k candidates c = some t) :
    RepairMove cfg s site k candidates c t := by
  unfold stepRepairing at h
  split at h
  next =>
    cases h
    exact .none
  next step rest =>
    simp only at h
    split_ifs at h with hspent
    · cases h
      exact .spent rest hspent
    · cases h
      exact .reject step rest _ _ _ _ (by simp)
  next step rest proposal =>
    simp only at h
    split_ifs at h
    split at h
    next =>
      cases h
      exact .reject step rest _ _ _ _ (by simp)
    next p =>
      split at h
      next =>
        cases h
        exact .reject step rest _ _ _ _ (by simp)
      next hvalid =>
        cases h
        exact .accept rest hvalid
  next => cases h

theorem reviseMove_of_step {attempt : ℕ} (h : stepRevising cfg s site k attempt c = some t) :
    ReviseMove cfg s site k attempt c t := by
  unfold stepRevising at h
  split at h
  next =>
    split at h
    next =>
      cases h
      exact .noneAfterFailure rfl
    next =>
      cases h
      exact .noneAfterLayers rfl
  next revised =>
    by_cases hacc : plannerAccepts cfg s revised = true
    · rw [if_pos hacc] at h
      simp only at h
      by_cases hpass : ((findDegenerateRevisedSteps s.plan s.results revised).isEmpty &&
          (if (findDegenerateRevisedSteps s.plan s.results revised).isEmpty = true then
            invariantErrors cfg s revised else []).isEmpty) = true
      · rw [if_pos hpass] at h
        rw [Bool.and_eq_true] at hpass
        obtain ⟨hdeg, hinv⟩ := hpass
        rw [if_pos hdeg, List.isEmpty_iff] at hinv
        rw [List.isEmpty_iff] at hdeg
        split_ifs at h with hempty
        · cases h
          exact .empty hacc (List.isEmpty_iff.mp hempty)
        · rw [List.isEmpty_iff] at hempty
          split at h
          next =>
            cases h
            exact .mergeAfterFailure rfl hacc hdeg hinv hempty
          next =>
            cases h
            exact .mergeAfterLayers rfl hacc hdeg hinv hempty
      · rw [if_neg hpass] at h
        by_cases hretry : attempt < cfg.maxReviseRetries
        · rw [if_pos hretry] at h
          cases h
          exact .retry revised hretry
        · rw [if_neg hretry] at h
          cases h
          exact .giveUp revised _ (Nat.not_lt.mp hretry)
    · rw [if_neg hacc] at h
      cases h
  next => cases h

theorem mergeMove_of_step {revised : DagPlan} (h : stepMerging cfg s site k revised c = some t) :
    c = .tick ∧ MergeMove cfg s site k revised t := by
  unfold stepMerging at h
  split at h
  next =>
    simp only at h
    split_ifs at h with hv
    · rw [List.isEmpty_iff] at hv
      split at h
      next =>
        cases h
        exact ⟨rfl, .announce rfl hv⟩
      next =>
        cases h
        exact ⟨rfl, .adopt rfl hv⟩
    · cases h
      exact ⟨rfl, .reject _⟩
  next => cases h

theorem disposeMove_of_step {verdict : CompletionVerdict} (h : stepDisposing s k verdict c = some t) :
    c = .tick ∧ DisposeMove s k t := by
  unfold stepDisposing at h
  split at h
  next =>
    simp only at h
    split_ifs at h
    · cases h
      exact ⟨rfl, .fail _ _⟩
    · cases h
      exact ⟨rfl, .fail _ _⟩
    · cases h
      exact ⟨rfl, .complete _ _⟩
  next => cases h

/-- **Every move of the scheduler is one of `SchedulerMove`.** -/
theorem move_of_step (h : step cfg s c = some t) : SchedulerMove cfg s c t := by
  unfold step at h
  split at h
  next e =>
    split_ifs at h with hf
    cases h
    rw [Bool.and_eq_true, Bool.not_eq_true'] at hf
    exact .foreign hf.1 hf.2
  next =>
    split at h
    next hpc => exact .entry hpc (entryMove_of_step h)
    next k hpc => exact .layers hpc (layersMove_of_step h)
    next k layer ph hpc => exact .phase hpc (phaseStep_of_step h)
    next site k candidates hpc => exact .repair hpc (repairMove_of_step h)
    next site k attempt hpc => exact .revise hpc (reviseMove_of_step h)
    next site k revised hpc =>
      obtain ⟨rfl, hm⟩ := mergeMove_of_step h
      exact .merge hpc hm
    next k merged hpc =>
      split at h
      · cases h
        exact .announce hpc
      · cases h
    next k verdict hpc =>
      obtain ⟨rfl, hd⟩ := disposeMove_of_step h
      exact .dispose hpc hd
    next error hpc =>
      split at h
      · cases h
        exact .fail hpc
      · cases h
    next hpc =>
      split at h
      · cases h
        exact .finish hpc
      · cases h
    next => cases h
    next => cases h

/-- At the head of the loop. -/
theorem entry_cases (h : step cfg s c = some t) (hpc : s.pc = .entry) :
    (∃ e, isForeign e = true ∧ t = s.emit [e]) ∨ EntryMove cfg s c t := by
  cases move_of_step h with
  | foreign hf _ => exact .inl ⟨_, hf, rfl⟩
  | entry _ hm => exact .inr hm
  | layers h' | phase h' | repair h' | revise h' | merge h' | announce h' | dispose h' | fail h' | finish h' =>
      rw [hpc] at h'
      cases h'

/-- An answer of the planner. -/
theorem revise_move {attempt : ℕ} {answer : Option DagPlan} (h : step cfg s (.revise answer) = some t)
    (hpc : s.pc = .revising site k attempt) : ReviseMove cfg s site k attempt (.revise answer) t := by
  apply reviseMove_of_step
  simpa only [step, hpc] using h

/-- At a merge. -/
theorem merge_cases {revised : DagPlan} (h : step cfg s c = some t) (hpc : s.pc = .merging site k revised) :
    (∃ e, isForeign e = true ∧ t = s.emit [e]) ∨ MergeMove cfg s site k revised t := by
  cases move_of_step h with
  | foreign hf _ => exact .inl ⟨_, hf, rfl⟩
  | merge h' hm =>
      rw [hpc] at h'
      cases h'
      exact .inr hm
  | entry h' | layers h' | phase h' | repair h' | revise h' | announce h' | dispose h' | fail h' | finish h' =>
      rw [hpc] at h'
      cases h'

end inversion
end JAgent
