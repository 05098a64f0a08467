import JAgent.Scheduler.Rounds
import JAgent.Tools.HttpRequest

/-! # Side effects the user did not ask for

A run that heals itself executes steps the user never saw.  Two guards keep their side effects within the
delivery contracts: a revision is judged on a copy of the merged plan and rejected when it has a mutating
step that no contract covers, and a step-local repair is accepted only for an action of the recovery
whitelist.  The second guard decides by a notion of its own what has no side effect.

`Authorised` is the property of one step that the guards should secure: its action has no side effect, or a
contract covers it, or the root plan has it.  Every plan of a run consists of authorised steps as long as the
proposals that the whitelist lets through are authorised (`repairsReadOnly`); nothing is asked of revisions.
The merge that the guard judged is the merge that happens, because the two differ in annotations only
(`mergedSteps_mergeStepTasks`). -/

namespace JAgent

/-! ### The judged merge and the real one -/

section tasks
variable [Py] (root current revised : DagPlan) (results : Results) (aliases : Aliases)

omit [Py] in
theorem normalAt_mergeStepTasks :
    normalAt (mergeStepTasks results revised) = normalAt results := by
  funext sid
  exact holdsAt_mergeStepTasks (fun _ _ => rfl) results revised sid

theorem bindAliases_mergeStepTasks :
    bindAliases root current revised (mergeStepTasks results revised) aliases =
      bindAliases root current revised results aliases := by
  have hunresolved : unresolvedIds root (mergeStepTasks results revised) aliases =
      unresolvedIds root results aliases := by
    unfold unresolvedIds
    rw [normalAt_mergeStepTasks]
  have hone : bindOne root revised (mergeStepTasks results revised) = bindOne root revised results := by
    funext b originalId
    unfold bindOne
    rw [holdsAt_mergeStepTasks (fun _ _ => rfl)]
  have hforced : bindForced (mergeStepTasks results revised) = bindForced results := by
    funext b
    have hran : ∀ sid, Results.holdsAt (mergeStepTasks results revised) ranAndFailed sid =
        Results.holdsAt results ranAndFailed sid := holdsAt_mergeStepTasks (fun _ _ => rfl) results revised
    simp only [bindForced, hran]
  unfold bindAliases bindBySignature
  rw [hunresolved, hone, hforced]

/-- **The planner's annotations do not change the merged plan.** -/
theorem mergedSteps_mergeStepTasks :
    (mergeRevisedPlan root current revised (mergeStepTasks results revised) aliases).plan =
      (mergeRevisedPlan root current revised results aliases).plan := by
  simp only [mergeRevisedPlan, bindAliases_mergeStepTasks, mergedSteps, restoredSteps,
    normalAt_mergeStepTasks]

end tasks

/-! ### Authorised steps -/

section authorised
variable [Py]

/-- The root plan has a step with this action. -/
def rootAction (root : DagPlan) (step : DagStep) : Bool :=
  root.steps.any fun r => stepSignature r = stepSignature step

/-- The action has no side effect, or a contract covers it, or the root plan has it. -/
def authorised (registry : Registry) (contracts : List DeliveryContract) (root : DagPlan)
    (step : DagStep) : Bool :=
  !stepIsMutating registry step || coveredBy contracts step || rootAction root step

/-- Every step of the plan is authorised. -/
def Authorised (registry : Registry) (contracts : List DeliveryContract) (root plan : DagPlan) : Prop :=
  ∀ p ∈ plan.steps, authorised registry contracts root p = true

variable {registry : Registry} {contracts : List DeliveryContract} {root plan : DagPlan}

/-- Only the action of a step decides. -/
theorem authorised_congr {p q : DagStep} (htool : p.tool = q.tool) (hinput : p.input = q.input) :
    authorised registry contracts root p = authorised registry contracts root q := by
  have hsig : stepSignature p = stepSignature q := by
    unfold stepSignature
    rw [htool, hinput]
  have hcov : coveredBy contracts p = coveredBy contracts q := by
    unfold coveredBy
    congr 1
    funext c
    exact RequiredOperation.stepSatisfies_congr htool hinput _
  unfold authorised stepIsMutating rootAction
  rw [hsig, hcov, htool, hinput]

theorem authorised_root (registry : Registry) (contracts : List DeliveryContract) (root : DagPlan) :
    Authorised registry contracts root root := by
  intro p hp
  have hroot : rootAction root p = true := by
    unfold rootAction
    rw [List.any_eq_true]
    exact ⟨p, hp, by simp⟩
  simp [authorised, hroot]

/-- A plan that the revision guard accepts is authorised by the contracts alone. -/
theorem Authorised.of_guard (hc : contracts ≠ [])
    (h : validateRevisionInvariants registry contracts plan = []) :
    Authorised registry contracts root plan := by
  intro p hp
  have hnot : .undeclaredMutation p ∉ validateRevisionInvariants registry contracts plan := by
    rw [h]
    exact List.not_mem_nil
  rw [undeclaredMutation_mem_iff] at hnot
  cases hm : stepIsMutating registry p with
  | false => simp [authorised, hm]
  | true =>
      cases hcov : coveredBy contracts p with
      | true => simp [authorised, hcov]
      | false => exact absurd ⟨hc, hp, hm, hcov⟩ hnot

/-- The action of a proposal, as a step. -/
def LocalRepairProposal.action (p : LocalRepairProposal) : DagStep :=
  { id := p.stepId, tool := p.toolName, input := p.input }

theorem Authorised.repair {p : LocalRepairProposal} (h : Authorised registry contracts root plan)
    (hp : authorised registry contracts root p.action = true) (sid : String) :
    Authorised registry contracts root (repairPlan plan sid p) := by
  intro q hq
  obtain ⟨q', hq', rfl⟩ := List.mem_map.mp hq
  unfold repairStep
  split_ifs
  · exact (authorised_congr rfl rfl).trans hp
  · exact h q' hq'

end authorised

/-! ### What the two guards let through -/

/-- A revision has passed the guards and waits to be merged. -/
def Pc.isMerging : Pc → Bool
  | .merging .. => true
  | _ => false

section guards
variable [Py] {cfg : Config} {s t : State} {c : Choice} {site site' : Site} {k k' : Round}
  {revised : DagPlan}

theorem isMerging_healPc : (healPc cfg s site k).isMerging = false := by
  unfold healPc
  split_ifs <;> rfl

theorem isMerging_afterLayer {layer : List String} {ok : Bool} :
    (afterLayer cfg s k layer ok).isMerging = false := by
  unfold afterLayer
  split_ifs
  · rfl
  · exact isMerging_healPc

theorem isMerging_finishLayers : (finishLayers cfg s k).isMerging = false := by
  unfold finishLayers
  simp only
  split_ifs
  · exact isMerging_healPc
  · rfl

theorem isMerging_settleEmptyRevised : (settleEmptyRevised s site k revised).pc.isMerging = false := by
  unfold settleEmptyRevised
  split_ifs <;> rfl

theorem isMerging_launch {sid : String} {onCall : DagStep → Pc} {onReturn : StepResult → Pc}
    (hcall : ∀ step, (onCall step).isMerging = false) (hreturn : ∀ r, (onReturn r).isMerging = false) :
    (launch cfg s sid onCall onReturn).pc.isMerging = false := by
  unfold launch
  split
  · exact hreturn _
  · exact hcall _

theorem PhaseStep.isMerging {layer : List String} {ph : Phase} (h : PhaseStep cfg s k layer ph c t) :
    t.pc.isMerging = false := by
  cases h with
  | call | resume => exact isMerging_launch (fun _ => rfl) fun _ => rfl
  | settled | confirmed => exact isMerging_afterLayer
  | _ => rfl

/-- A revision is merged only when the guards found nothing in it and in the merged copy. -/
theorem ReviseMove.guarded {attempt : ℕ} (h : ReviseMove cfg s site k attempt c t) :
    t.pc.isMerging = false ∨ (t.pc = .merging site' k' revised →
      findDegenerateRevisedSteps s.plan s.results revised = [] ∧ invariantErrors cfg s revised = []) := by
  cases h with
  | empty => exact .inl isMerging_settleEmptyRevised
  | mergeAfterFailure _ _ hdeg hinv _ | mergeAfterLayers _ _ hdeg hinv _ =>
      refine .inr ?_
      rintro ⟨⟩
      exact ⟨hdeg, hinv⟩
  | _ => exact .inl rfl

/-- **Every pending merge has passed the revision guard**: a move that leads to one leaves the state of
the run as it was, or was made by a revision that the guard had nothing against. -/
theorem guarded_of_step (h : step cfg s c = some t) (hpc : t.pc = .merging site k revised) :
    s.pc = .merging site k revised ∨
      (findDegenerateRevisedSteps s.plan s.results revised = [] ∧ invariantErrors cfg s revised = []) := by
  have hmerging : t.pc.isMerging = true := by rw [hpc]; rfl
  have hnot : t.pc.isMerging = false → s.pc = .merging site k revised ∨
      (findDegenerateRevisedSteps s.plan s.results revised = [] ∧ invariantErrors cfg s revised = []) := by
    intro hf
    rw [hmerging] at hf
    cases hf
  cases move_of_step h with
  | foreign _ _ => exact .inl hpc
  | entry _ hm =>
      cases hm <;> exact hnot rfl
  | layers _ hm =>
      cases hm with
      | finish _ => exact hnot isMerging_finishLayers
      | next _ => exact hnot rfl
      | cancel _ => exact hnot rfl
  | phase _ hm => exact hnot hm.isMerging
  | repair _ hm =>
      cases hm <;> exact hnot rfl
  | revise _ hm =>
      rcases hm.guarded with hf | hguard
      · exact hnot hf
      · exact .inr (hguard hpc)
  | merge _ hm =>
      cases hm <;> exact hnot rfl
  | announce _ => exact hnot rfl
  | dispose _ hm =>
      cases hm <;> exact hnot rfl
  | fail _ => exact hnot rfl
  | finish _ => exact hnot rfl

/-- A repair is accepted only for an action of the whitelist. -/
theorem readOnly_of_repair {failed : DagStep} {rest : List DagStep} {p : LocalRepairProposal}
    (hpc : s.pc = .repairing site k (failed :: rest)) (h : step cfg s (.propose (some p)) = some t)
    (hentry : t.pc = .entry) :
    isReadOnlyAction p.toolName p.input (readOnlyToolMap cfg.toolDefs) = true := by
  simp only [step, hpc, stepRepairing] at h
  split_ifs at h
  split at h
  · cases h
    cases hentry
  · rename_i hvalid
    unfold validateLocalRepair at hvalid
    split_ifs at hvalid with h1 h2 h3 h4
    simpa using h4

end guards

/-! ### Whole runs -/

/-- The observation is a revision that was adopted or a repair that was accepted. -/
def Obs.heals : Obs → Bool
  | .adopt _ | .repair _ => true
  | _ => false

section runs
variable [Py]

/-- After the run healed itself, a mutating step is executed that no contract covers and whose action the
root plan does not have. -/
def selfAuthorises (registry : Registry) (contracts : List DeliveryContract) (root : DagPlan) :
    Obs → Obs → Bool
  | before, .call step _ _ => before.heals && stepIsMutating registry step &&
      !coveredBy contracts step && !rootAction root step
  | _, _ => false

/-- No execution after a healing is self-authorised. -/
def NoSelfAuthorised (registry : Registry) (contracts : List DeliveryContract) (root : DagPlan)
    (hist : List Obs) : Prop :=
  hist.Pairwise fun before after => selfAuthorises registry contracts root before after = false

instance (registry : Registry) (contracts : List DeliveryContract) (root : DagPlan) (hist : List Obs) :
    Decidable (NoSelfAuthorised registry contracts root hist) :=
  inferInstanceAs (Decidable (List.Pairwise _ _))

/-- A proposal that the whitelist lets through has no side effect by the contract of its tool, or is an
action that a contract covers or the root plan has. -/
def repairsReadOnly (cfg : Config) (s : State) : Choice → Bool
  | .propose (some p) => !isReadOnlyAction p.toolName p.input (readOnlyToolMap cfg.toolDefs) ||
      authorised cfg.registry s.contracts s.root p.action
  | _ => true

/-- Every plan at hand, and every step executed so far, is authorised. -/
structure AuthInv (cfg : Config) (contracts : List DeliveryContract) (root : DagPlan) (s : State) :
    Prop where
  root_eq : s.root = root
  contracts_eq : s.contracts = contracts
  plan : Authorised cfg.registry contracts root s.plan
  merging : ∀ site k revised, s.pc = .merging site k revised →
    Authorised cfg.registry contracts root (s.merge revised).plan
  announcing : ∀ k merged, s.pc = .announcing k merged → Authorised cfg.registry contracts root merged
  calls : ∀ step input seen, .call step input seen ∈ s.hist →
    authorised cfg.registry contracts root step = true

variable {cfg : Config} {contracts : List DeliveryContract} {root : DagPlan} {s t : State} {c : Choice}

theorem AuthInv.start (results : Results) (log : List Event) :
    AuthInv cfg contracts root (State.start root results contracts log []) := by
  refine ⟨rfl, rfl, authorised_root _ _ _, ?_, ?_, ?_⟩
  · intro site k revised hpc
    cases hpc
  · intro k merged hpc
    cases hpc
  · intro step input seen hmem
    cases hmem

/-- What was executed is a step of the plan. -/
theorem AuthInv.calls_trans (h : AuthInv cfg contracts root s) (ht : Trans cfg s c t) :
    ∀ step input seen, .call step input seen ∈ t.hist →
      authorised cfg.registry contracts root step = true := by
  intro step input seen hmem
  rcases ht.call_mem hmem with hold | ⟨k, layer, ph, ph', sid, _, _, hprep, _⟩
  · exact h.calls step input seen hold
  · exact h.plan step (prepareStep_call hprep).1

/-- A move that adopts no plan and leaves no merge pending. -/
theorem AuthInv.frame (h : AuthInv cfg contracts root s) (ht : Trans cfg s c t) (hroot : t.root = s.root)
    (hcontracts : t.contracts = s.contracts) (hplan : Authorised cfg.registry contracts root t.plan)
    (hmerging : ∀ site k revised, t.pc ≠ .merging site k revised)
    (hannouncing : ∀ k merged, t.pc ≠ .announcing k merged) : AuthInv cfg contracts root t := by
  refine ⟨hroot.trans h.root_eq, hcontracts.trans h.contracts_eq, hplan, ?_, ?_, h.calls_trans ht⟩
  · intro site k revised hpc
    exact absurd hpc (hmerging site k revised)
  · intro k merged hpc
    exact absurd hpc (hannouncing k merged)

/-- The merge that the guard judged, or that was pending before, is authorised. -/
theorem AuthInv.merge_authorised (h : AuthInv cfg contracts root s) (hc : contracts ≠ [])
    (hs : step cfg s c = some t) {site : Site} {k : Round} {revised : DagPlan}
    (hne : revised.steps ≠ []) (hpc : t.pc = .merging site k revised) :
    Authorised cfg.registry contracts root (s.merge revised).plan := by
  rcases guarded_of_step hs hpc with hold | ⟨_, hguard⟩
  · exact h.merging site k revised hold
  · unfold invariantErrors at hguard
    rw [if_neg (by simpa using hne), h.contracts_eq] at hguard
    exact .of_guard hc hguard

/-- **One move keeps every plan authorised**, provided that an accepted proposal is. -/
theorem AuthInv.step (h : AuthInv cfg contracts root s) (hc : contracts ≠ [])
    (hok : repairsReadOnly cfg s c = true) (hs : JAgent.step cfg s c = some t) :
    AuthInv cfg contracts root t := by
  have ht := step_trans hs
  have hframe := h.frame ht
  have hcalls := h.calls_trans ht
  cases ht with
  | quiet hp _ _ =>
      refine hframe rfl rfl h.plan (plain_ne hp).2 ?_
      rintro k merged rfl
      cases hp
  | heal _ _ _ | enter _ _ _ _ | nextLayer _ _ | move _ _ _ | gateSkip _ _ _ | call _ _ _ | settle _
  | settleRetry _ | layerDone _ _ | mergeFail _ =>
      exact hframe rfl rfl h.plan (by simp) (by simp)
  | foreign _ => exact ⟨h.root_eq, h.contracts_eq, h.plan, h.merging, h.announcing, hcalls⟩
  | @repair site k failed rest p es rounds hpc _ =>
      have hro := readOnly_of_repair hpc hs rfl
      have haction : authorised cfg.registry contracts root p.action = true := by
        simpa [repairsReadOnly, hro, h.root_eq, h.contracts_eq] using hok
      exact hframe rfl rfl (h.plan.repair haction failed.id) (by simp) (by simp)
  | @accept _ revised es pc _ _ _ hpc' =>
      rcases hpc' with hp | ⟨hne, site, k, rfl⟩
      · refine hframe rfl rfl h.plan (plain_ne hp).2 ?_
        rintro k merged rfl
        cases hp
      · have hmerge := h.merge_authorised hc hs hne rfl
        refine ⟨h.root_eq, h.contracts_eq, h.plan, ?_, ?_, hcalls⟩
        · rintro site' k' revised' ⟨⟩
          unfold State.merge at hmerge ⊢
          rwa [mergedSteps_mergeStepTasks]
        · rintro k' merged ⟨⟩
  | @mergeAnnounce _ site k revised hpc =>
      refine ⟨h.root_eq, h.contracts_eq, h.plan, ?_, ?_, hcalls⟩
      · rintro site' k' revised' ⟨⟩
      · rintro k' merged ⟨⟩
        exact h.merging site k revised hpc
  | @mergeAdopt _ site k revised hpc =>
      exact hframe rfl rfl (h.merging site k revised hpc) (by simp [adopt]) (by simp [adopt])
  | @announce _ k merged es hpc _ =>
      exact hframe rfl rfl (h.announcing k merged hpc) (by simp [adopt]) (by simp [adopt])

theorem selfAuthorises_eq_false {registry : Registry} {before after : Obs}
    (h : ∀ step input seen, after = .call step input seen → authorised registry contracts root step = true) :
    selfAuthorises registry contracts root before after = false := by
  unfold selfAuthorises
  split
  next step input seen =>
    have hstep := h step input seen rfl
    unfold authorised at hstep
    cases hm : stepIsMutating registry step
    · simp
    · cases hcov : coveredBy contracts step
      · cases hroot : rootAction root step
        · simp [hm, hcov, hroot] at hstep
        · simp
      · simp
  next => rfl

/-- For the tools that the server registers, the condition is one on the spelling of a proposal. -/
theorem repairsReadOnly_of_spelled (hregistry : cfg.registry = .ofDefs whitelistedDefs)
    (hdefs : cfg.toolDefs = whitelistedDefs) {p : LocalRepairProposal}
    (hmethod : p.toolName = "http_request" → ∀ v, Obj.get? p.input "method" = some v →
      v = .str "GET" ∨ v = .str "HEAD")
    (hop : p.toolName = "file_op" → ∃ op, Obj.get? p.input "operation" = some (.str op)) :
    repairsReadOnly cfg s (.propose (some p)) = true := by
  simp only [repairsReadOnly, hregistry, hdefs]
  cases hro : isReadOnlyAction p.toolName p.input (readOnlyToolMap whitelistedDefs) with
  | false => rfl
  | true =>
      have hmut : stepIsMutating (.ofDefs whitelistedDefs) p.action = false :=
        not_mutating_of_isReadOnly hmethod hop hro
      simp [authorised, hmut]

/-- **No self-authorised side effect.**  In every run with contracts, whatever the planner answers, as long
as every proposal that the whitelist lets through is authorised by the contract of its tool, a delivery
contract or the root plan, every mutating step that is executed after a revision or a repair is covered by a
contract or is an action of the root plan. -/
theorem no_self_authorised_side_effect (plan : DagPlan) (results : Results)
    (contracts : List DeliveryContract) (log : List Event) (hc : contracts ≠ [])
    (h : Lib.ReachesVia (JAgent.step cfg) (fun s c => repairsReadOnly cfg s c = true)
      (State.start plan results contracts log []) s) :
    NoSelfAuthorised cfg.registry contracts plan s.hist := by
  have hinv : AuthInv cfg contracts plan s := by
    apply h.invariant
    · exact .start results log
    · intro t u c _ hok ht hs
      exact ht.step hc hok hs
  refine List.pairwise_of_forall_mem_list ?_
  intro before _ after hafter
  refine selfAuthorises_eq_false ?_
  rintro step input seen rfl
  exact hinv.calls step input seen hafter

end runs
/-! ### A page that is not there -/

section page
attribute [local instance] asciiPy

/-- `http_request` declared without operations: the side effects of the tool hold for every method. -/
def plainHttpRequest : ToolDefinition :=
  { name := "http_request", idempotencyKeyFields := some ["url", "method"], sideEffects := [.external],
    timeoutMs := 5000, retryPolicy := { maxRetries := 2, retryableErrors := ["timeout", "ConnectionError"] } }

/-- The file tool and an HTTP tool, with step-local repair. -/
def webConfig (http : ToolDefinition) : Config :=
  { registry := .ofDefs [fileOp, http], toolDefs := [fileOp, http], localRepairEnabled := true }

/-- Read a page, then write the note that the user asked for. -/
def pagePlan : DagPlan :=
  { steps := [fileStep "page" "read" "page.html" [], writeStep "note" "note.txt" "seen" ["page"]] }

/-- The note is what the user asked for. -/
def noteContract : DeliveryContract :=
  { tool := "file_op", contractId := "note"
    input := [("operation", .str "write"), ("path", .str "note.txt")] }

/-- Fetch the page instead. -/
def fetchPage (method : String) : LocalRepairProposal :=
  { stepId := "page", toolName := "http_request"
    input := [("url", .str "https://example.com/page.html"), ("method", .str method)] }

/-- The page cannot be read, the planner proposes to fetch it, and the next round does so. -/
def pageScript (method : String) : List Choice :=
  Choice.enter "p" :: playLayer 1 [("page", refused "no such file")] ++
    [Choice.propose (some (fetchPage method)), .enter "q", .tick, .tick, .tick, .tick, .tick, .call "page"]

/-- The run before its first round. -/
def pageStart : State := .start pagePlan .empty [noteContract] [] []

/-- A request was made for the page. -/
def fetched (s : State) : Bool :=
  s.hist.any fun o => match o with
    | .call step _ _ => step.tool = "http_request"
    | _ => false

/-- The page is fetched by a step that nobody asked for. -/
def fetchedUncovered (http : ToolDefinition) (s : State) : Bool :=
  !decide (NoSelfAuthorised (webConfig http).registry [noteContract] pagePlan s.hist)

theorem exists_selfAuthorised (http : ToolDefinition) (method : String)
    (h : (Lib.run (step (webConfig http)) (pageScript method) pageStart).any (fetchedUncovered http) = true) :
    ∃ s, Lib.Reaches (step (webConfig http)) pageStart s ∧
      ¬NoSelfAuthorised (webConfig http).registry [noteContract] pagePlan s.hist := by
  obtain ⟨s, hs, hp⟩ := Lib.exists_reaches_of_run _ _ _ _ h
  refine ⟨s, hs, ?_⟩
  simpa [fetchedUncovered] using hp

/-- A repair fetches the page with the method `get`, which is no operation of the contract, so that the side
effects of the tool hold; and with `GET` where the tool declares no operations at all. -/
theorem repair_executes_uncovered_mutation :
    (∃ s, Lib.Reaches (step (webConfig httpRequest)) pageStart s ∧
      ¬NoSelfAuthorised (webConfig httpRequest).registry [noteContract] pagePlan s.hist) ∧
    ∃ s, Lib.Reaches (step (webConfig plainHttpRequest)) pageStart s ∧
      ¬NoSelfAuthorised (webConfig plainHttpRequest).registry [noteContract] pagePlan s.hist := by
  constructor
  · exact exists_selfAuthorised httpRequest "get" (by decide +kernel)
  · exact exists_selfAuthorised plainHttpRequest "GET" (by decide +kernel)

/-- Spelled as the contract spells it, the method has no side effect. -/
theorem page_fetched_without_side_effect : ∃ s,
    Lib.ReachesVia (step (webConfig httpRequest))
      (fun s c => repairsReadOnly (webConfig httpRequest) s c = true) pageStart s ∧ fetched s = true ∧
      NoSelfAuthorised (webConfig httpRequest).registry [noteContract] pagePlan s.hist := by
  obtain ⟨s, hs, hf⟩ := Lib.exists_reachesVia_of_run (step (webConfig httpRequest))
    (repairsReadOnly (webConfig httpRequest)) (pageScript "GET") pageStart fetched (by decide +kernel)
  exact ⟨s, hs, hf, no_self_authorised_side_effect pagePlan .empty [noteContract] [] (by simp) hs⟩

end page
end JAgent
