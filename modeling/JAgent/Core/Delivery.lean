import JAgent.Core.RevisionGuard

/-! # Completion gate and delivery invariants

The two trusted verdicts about what a run delivers.  The completion gate judges the root plan
after execution: every root step normal through the aliases, every declared operation and every
delivery contract matched by a normal root step (`CompletionVerdict.compute`).  The revision
invariants judge a merged revision before it is accepted (`validateRevisionInvariants`). -/

namespace JAgent

variable [Py]

/-! ### The completion gate -/

/-- What keeps a plan from being complete. -/
inductive Unmet where
  | step (stepId : String)
  | declaredOp (index : ℕ) (req : RequiredOperation)
deriving DecidableEq

def Unmet.label : Unmet → String
  | .step sid => sid
  | .declaredOp i req =>
      "declared_op#" ++ toString i ++ ":" ++ req.tool ++ " " ++ pyRepr (.obj req.input)

inductive DeliverableStatus where
  | met | unverified | failed
deriving DecidableEq

structure DeliverableVerdict where
  contractId : String
  met : Bool
  matchedStepIds : List String
deriving DecidableEq

structure CompletionVerdict where
  unmet : List Unmet
  deliverables : List DeliverableVerdict
  deliverableStatus : DeliverableStatus
deriving DecidableEq

def CompletionVerdict.mechanicalComplete (v : CompletionVerdict) : Bool := v.unmet.isEmpty

/-- The gate passes: mechanically complete and no contract failed. -/
def CompletionVerdict.passes (v : CompletionVerdict) : Bool :=
  v.mechanicalComplete && v.deliverableStatus ≠ .failed

/-- The root steps that satisfy an operation and whose canonical result is normal. -/
def matchedSteps (plan : DagPlan) (results : Results) (aliases : Aliases)
    (req : RequiredOperation) : List DagStep :=
  plan.steps.filter fun s =>
    RequiredOperation.stepSatisfies s req && normalAt results (canonical aliases s.id)

/-- `verify_deliverables`. -/
def verifyDeliverables (contracts : List DeliveryContract) (plan : DagPlan) (results : Results)
    (aliases : Aliases) : List DeliverableVerdict :=
  contracts.map fun c =>
    let matched := stepIds (matchedSteps plan results aliases c.toRequiredOperation)
    ⟨c.contractId, !matched.isEmpty, matched⟩

/-- `CompletionVerdict.compute`. -/
def completionGate (plan : DagPlan) (results : Results) (aliases : Aliases)
    (contracts : List DeliveryContract) : CompletionVerdict :=
  let unmetSteps := (stepIds plan.steps).filter fun sid => !normalAt results (canonical aliases sid)
  let unmetOps := plan.declaredOperations.zipIdx.filter fun ri =>
    (matchedSteps plan results aliases ri.1).isEmpty
  let deliverables := verifyDeliverables contracts plan results aliases
  { unmet := unmetSteps.map .step ++ unmetOps.map fun ri => .declaredOp ri.2 ri.1
    deliverables := deliverables
    deliverableStatus :=
      if contracts.isEmpty then .unverified
      else if !deliverables.isEmpty && deliverables.all (·.met) then .met else .failed }

section gate
variable {plan : DagPlan} {results : Results} {aliases : Aliases} {contracts : List DeliveryContract}

theorem exists_matched_iff {req : RequiredOperation} :
    matchedSteps plan results aliases req ≠ [] ↔
      ∃ s ∈ plan.steps, RequiredOperation.stepSatisfies s req = true ∧
        normalAt results (canonical aliases s.id) = true := by
  unfold matchedSteps
  rw [ne_eq, List.filter_eq_nil_iff]
  simp only [Bool.and_eq_true]
  push Not
  rfl

/-- A complete plan has a normal matching step for every declared operation. -/
theorem declared_of_complete
    (h : (completionGate plan results aliases contracts).mechanicalComplete = true)
    {req : RequiredOperation} (hreq : req ∈ plan.declaredOperations) :
    ∃ s ∈ plan.steps, RequiredOperation.stepSatisfies s req = true ∧
      normalAt results (canonical aliases s.id) = true := by
  rw [← exists_matched_iff]
  intro hnil
  unfold CompletionVerdict.mechanicalComplete completionGate at h
  rw [List.isEmpty_iff, List.append_eq_nil_iff] at h
  obtain ⟨i, hi⟩ := List.mem_iff_getElem?.mp hreq
  have := List.map_eq_nil_iff.mp h.2
  rw [List.filter_eq_nil_iff] at this
  exact this (req, i) (List.mk_mem_zipIdx_iff_getElem?.mpr hi) (by simp [hnil])

/-- A met delivery has a normal matching step for every contract. -/
theorem contract_of_met
    (h : (completionGate plan results aliases contracts).deliverableStatus = .met)
    {c : DeliveryContract} (hc : c ∈ contracts) :
    ∃ s ∈ plan.steps, RequiredOperation.stepSatisfies s c.toRequiredOperation = true ∧
      normalAt results (canonical aliases s.id) = true := by
  rw [← exists_matched_iff]
  intro hnil
  unfold completionGate at h
  simp only at h
  split_ifs at h with h1 h2
  simp only [Bool.and_eq_true, List.all_eq_true, verifyDeliverables, List.mem_map,
    forall_exists_index, and_imp, forall_apply_eq_imp_iff₂] at h2
  have := h2.2 c hc
  simp [hnil, stepIds] at this

end gate

/-! ### Revision invariants -/

/-- What a merged revision is rejected with. -/
inductive InvariantError where
  | removedOperation (contract : DeliveryContract)
  | changedKey (contract : DeliveryContract) (key : String) (expected got : Value)
  | undeclaredMutation (step : DagStep)

def InvariantError.message : InvariantError → String
  | .removedOperation c =>
      "Revision removed required operation: " ++ c.tool ++ " " ++ pyRepr (.obj c.input) ++
        " (contract " ++ c.contractId ++ ") — the user's hard deliverable must be preserved"
  | .changedKey c key expected got =>
      "Revision changed '" ++ key ++ "' for caller contract " ++ c.contractId ++ ": expected " ++
        pyRepr expected ++ ", got " ++ pyRepr got
  | .undeclaredMutation step =>
      "Revision introduced un-declared mutating step '" ++ step.id ++ "' (" ++ step.tool ++ " " ++
        pyRepr (.obj step.input) ++ ") not covered by any delivery contract"

/-- Operation-level side effects; an unregistered tool counts as mutating. -/
def stepIsMutating (registry : Registry) (step : DagStep) : Bool :=
  match registry.getToolDef step.tool with
  | none => true
  | some td => !(td.effectiveSideEffects step.input).isEmpty

/-- Some contract covers the step. -/
def coveredBy (contracts : List DeliveryContract) (step : DagStep) : Bool :=
  contracts.any fun c => RequiredOperation.stepSatisfies step c.toRequiredOperation

/-- The checks for one contract. -/
def contractErrors (steps : List DagStep) (c : DeliveryContract) : List InvariantError :=
  let matching := steps.filter fun s => RequiredOperation.stepSatisfies s c.toRequiredOperation
  if matching.isEmpty then [.removedOperation c]
  else if c.source = .caller then
    matching.flatMap fun s => c.input.filterMap fun kv =>
      let got := (Obj.get? s.input kv.1).getD .null
      if Value.pyEq got kv.2 then none else some (.changedKey c kv.1 kv.2 got)
  else []

/-- `validate_revision_invariants`. -/
def validateRevisionInvariants (registry : Registry) (contracts : List DeliveryContract)
    (revised : DagPlan) : List InvariantError :=
  contracts.flatMap (contractErrors revised.steps) ++
    (if contracts.isEmpty then []
      else (revised.steps.filter fun s =>
        stepIsMutating registry s && !coveredBy contracts s).map .undeclaredMutation)

section invariants
variable {registry : Registry} {contracts : List DeliveryContract} {plan : DagPlan}

/-- A removed operation is reported exactly for a contract no step of the plan satisfies. -/
theorem removedOperation_mem_iff {c : DeliveryContract} :
    .removedOperation c ∈ validateRevisionInvariants registry contracts plan ↔
      c ∈ contracts ∧ ∀ s ∈ plan.steps,
        RequiredOperation.stepSatisfies s c.toRequiredOperation = false := by
  unfold validateRevisionInvariants
  rw [List.mem_append, List.mem_flatMap]
  have hrest : InvariantError.removedOperation c ∉ (if contracts.isEmpty then []
      else (plan.steps.filter fun s =>
        stepIsMutating registry s && !coveredBy contracts s).map .undeclaredMutation) := by
    split_ifs <;> simp
  constructor
  · rintro (⟨c', hc', h⟩ | h)
    · unfold contractErrors at h
      simp only at h
      split_ifs at h with h1 h2
      · rw [List.mem_singleton] at h
        cases h
        refine ⟨hc', fun s hs => ?_⟩
        rw [List.isEmpty_iff, List.filter_eq_nil_iff] at h1
        simpa using h1 s hs
      · simp only [List.mem_flatMap, List.mem_filterMap] at h
        obtain ⟨s, _, kv, _, hkv⟩ := h
        split_ifs at hkv
        cases hkv
      · cases h
    · exact absurd h hrest
  · rintro ⟨hc, hs⟩
    refine .inl ⟨c, hc, ?_⟩
    have : (plan.steps.filter fun s =>
        RequiredOperation.stepSatisfies s c.toRequiredOperation) = [] := by
      rw [List.filter_eq_nil_iff]
      intro s hmem
      simp [hs s hmem]
    simp [contractErrors, this]

/-- A mutation is reported exactly for a mutating step that no contract covers. -/
theorem undeclaredMutation_mem_iff {m : DagStep} :
    .undeclaredMutation m ∈ validateRevisionInvariants registry contracts plan ↔
      contracts ≠ [] ∧ m ∈ plan.steps ∧ stepIsMutating registry m = true ∧
        coveredBy contracts m = false := by
  unfold validateRevisionInvariants
  rw [List.mem_append, List.mem_flatMap]
  have hfirst : ¬∃ c ∈ contracts, InvariantError.undeclaredMutation m ∈ contractErrors plan.steps c := by
    rintro ⟨c, _, h⟩
    unfold contractErrors at h
    simp only at h
    split_ifs at h
    · simp at h
    · simp only [List.mem_flatMap, List.mem_filterMap] at h
      obtain ⟨s, _, kv, _, hkv⟩ := h
      split_ifs at hkv
      cases hkv
    · cases h
  by_cases hc : contracts = []
  · simp [hc]
  · simp only [hfirst, false_or, List.isEmpty_iff, hc, if_false, ne_eq, not_false_eq_true, true_and,
      List.mem_map, List.mem_filter, Bool.and_eq_true, Bool.not_eq_true']
    constructor
    · rintro ⟨s, ⟨hs, h1, h2⟩, he⟩
      cases he
      exact ⟨hs, h1, h2⟩
    · rintro ⟨hs, h1, h2⟩
      exact ⟨m, ⟨hs, h1, h2⟩, rfl⟩

end invariants
end JAgent
