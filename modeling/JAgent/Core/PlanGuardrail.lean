import JAgent.Core.OutputRefs

/-! # The plan guardrail

Trusted validation of a plan before execution: tool existence and probe legality of every
step, plan structure, references, self-consistency of the declared operations and dangerous
tool combinations, in that order; a failed stage hides the later ones.  Only the structure and
the reference stage read the context sets (`completed`, `available`), and only to decide
whether a name is known: `validate_nil_iff_closed` says what separates the verdicts with and
without context. -/

namespace JAgent

/-! ### Dangerous combinations -/

section combinations
variable (registry : Registry)

/-- `_check_dangerous_combinations`. -/
def checkDangerousCombinations (plan : DagPlan) : List PlanError :=
  plan.steps.flatMap fun step => match registry.getToolDef step.tool with
    | some td => (td.dangerousWith.filter fun d => (plan.steps.map DagStep.tool).contains d).map
        fun d => .dangerousCombination step.tool d
    | none => []

/-- The tool of `p` is declared dangerous together with the tool of `q`. -/
def dangerousPair (p q : DagStep) : Bool :=
  match registry.getToolDef p.tool with
  | some td => td.dangerousWith.contains q.tool
  | none => false

variable {registry} {plan : DagPlan}

/-- The combination check is a check of pairs. -/
theorem checkDangerousCombinations_eq_nil_iff : checkDangerousCombinations registry plan = [] ↔
    ∀ p ∈ plan.steps, ∀ q ∈ plan.steps, dangerousPair registry p q = false := by
  unfold checkDangerousCombinations dangerousPair
  rw [List.flatMap_eq_nil_iff]
  refine forall₂_congr fun p _ => ?_
  cases registry.getToolDef p.tool with
  | none => simp
  | some td =>
      simp only [List.map_eq_nil_iff, List.filter_eq_nil_iff, List.contains_eq_mem,
        decide_eq_true_eq, List.mem_map, not_exists, not_and, decide_eq_false_iff_not]
      exact ⟨fun h q hq hd => h q.tool hd q hq rfl, fun h d hd q hq he => h q hq (he ▸ hd)⟩

end combinations

/-! ### Validation -/

variable [Py] (registry : Registry)

/-- The checks of one step: the tool exists, and a probe declaration is allowed. -/
def stepErrors (i : ℕ) (step : DagStep) : List PlanError :=
  if step.id = "" then [.missingId i]
  else match registry.getToolDef step.tool with
    | none => [.unknownTool step.id step.tool]
    | some td =>
      if step.probe then
        match td.resolveOperation step.input with
        | some op =>
          if !op.sideEffects.isEmpty || !op.probeAllowed then
            [.probeNotAllowed step.id (.operation op.operation) op.sideEffects]
          else []
        | none =>
          if !td.sideEffects.isEmpty then
            [.probeNotAllowed step.id (.tool step.tool) td.sideEffects]
          else []
      else []

/-- The declared operations no step of the plan satisfies. -/
def declaredErrors (plan : DagPlan) : List PlanError :=
  plan.declaredOperations.zipIdx.filterMap fun ri =>
    if plan.steps.any fun s => RequiredOperation.stepSatisfies s ri.1 then none
    else some (.declaredOperation ri.2 ri.1)

/-- `PlanGuardrail.validate`; the parallelism check only logs. -/
def validate (plan : DagPlan) (completed available : List String) : List PlanError :=
  if plan.steps.isEmpty then []
  else
    let errors := plan.steps.zipIdx.flatMap fun si => stepErrors registry si.2 si.1
    if !errors.isEmpty then errors
    else
      let errors := validateDagStructure plan completed available
      if !errors.isEmpty then errors
      else
        let errors := parseOutputRefs registry plan completed available
        if !errors.isEmpty then errors
        else
          let errors := declaredErrors plan
          if !errors.isEmpty then errors
          else checkDangerousCombinations registry plan

/-! ### The stages of an accepted plan -/

variable {registry} {plan : DagPlan} {completed available : List String}

/-- A plan is accepted when it is empty or passes every stage. -/
theorem validate_eq_nil_iff : validate registry plan completed available = [] ↔
    plan.steps = [] ∨
    ((plan.steps.zipIdx.flatMap fun si => stepErrors registry si.2 si.1) = [] ∧
      validateDagStructure plan completed available = [] ∧
      parseOutputRefs registry plan completed available = [] ∧
      declaredErrors plan = [] ∧ checkDangerousCombinations registry plan = []) := by
  unfold validate
  rcases plan.steps.eq_nil_or_concat with h | ⟨_, _, h⟩
  · simp [h]
  have hne : plan.steps ≠ [] := by simp [h]
  simp only [List.isEmpty_iff, hne, if_false, false_or, Bool.not_eq_true', List.isEmpty_eq_false_iff]
  split_ifs <;> simp_all

theorem structure_of_validate (h : validate registry plan completed available = []) :
    validateDagStructure plan completed available = [] := by
  rcases validate_eq_nil_iff.mp h with h | h
  · simp [validateDagStructure, h]
  · exact h.2.1

theorem refs_of_validate (h : validate registry plan completed available = []) :
    parseOutputRefs registry plan completed available = [] := by
  rcases validate_eq_nil_iff.mp h with h | h
  · simp [parseOutputRefs, h]
  · exact h.2.2.1

theorem stepErrors_of_validate (h : validate registry plan completed available = []) {s : DagStep}
    (hs : s ∈ plan.steps) (i : ℕ) : stepErrors registry i s = [] := by
  have hne : plan.steps ≠ [] := List.ne_nil_of_mem hs
  have h1 := ((validate_eq_nil_iff.mp h).resolve_left hne).1
  obtain ⟨j, hj⟩ := List.mem_iff_getElem?.mp hs
  have hj' : stepErrors registry j s = [] :=
    List.flatMap_eq_nil_iff.mp h1 (s, j) (List.mk_mem_zipIdx_iff_getElem?.mpr hj)
  -- the position only shows in the message for a missing id
  unfold stepErrors at hj' ⊢
  by_cases hid : s.id = ""
  · rw [if_pos hid] at hj'
    cases hj'
  · rw [if_neg hid] at hj' ⊢
    exact hj'

theorem id_ne_of_validate (h : validate registry plan completed available = []) {s : DagStep}
    (hs : s ∈ plan.steps) : s.id ≠ "" := by
  intro hid
  have h0 := stepErrors_of_validate h hs 0
  unfold stepErrors at h0
  rw [if_pos hid] at h0
  cases h0

theorem dangerousPair_of_validate (h : validate registry plan completed available = [])
    {p q : DagStep} (hp : p ∈ plan.steps) (hq : q ∈ plan.steps) :
    dangerousPair registry p q = false := by
  have h5 := ((validate_eq_nil_iff.mp h).resolve_left (List.ne_nil_of_mem hp)).2.2.2.2
  exact checkDangerousCombinations_eq_nil_iff.mp h5 p hp q hq

/-- More steps satisfy no fewer declared operations. -/
theorem declaredErrors_mono {steps : List DagStep} (h : declaredErrors plan = [])
    (hsub : plan.steps ⊆ steps) : declaredErrors { plan with steps := steps } = [] := by
  unfold declaredErrors at h ⊢
  rw [List.filterMap_eq_nil_iff] at h ⊢
  intro ri hri
  have h1 := h ri hri
  split_ifs at h1 with hany
  obtain ⟨s, hs, hsat⟩ := List.any_eq_true.mp hany
  exact if_pos (List.any_eq_true.mpr ⟨s, hsub hs, hsat⟩)

/-- **An accepted plan has distinct step ids.** -/
theorem nodup_of_validate (h : validate registry plan completed available = []) :
    (stepIds plan.steps).Nodup := nodup_stepIds_of_valid (structure_of_validate h)

/-- **Every dependency of an accepted plan is known**, and none is the step itself. -/
theorem dep_of_validate (h : validate registry plan completed available = []) {s : DagStep}
    (hs : s ∈ plan.steps) {d : String} (hd : d ∈ s.dependsOn) :
    d ≠ s.id ∧ (d ∈ stepIds plan.steps ∨ d ∈ completed ∨ d ∈ available) :=
  dep_of_valid (structure_of_validate h) hs hd

/-- **Every reference of an accepted plan is known.** -/
theorem ref_of_validate (h : validate registry plan completed available = []) {s : DagStep}
    (hs : s ∈ plan.steps) {sid : String} (hr : sid ∈ refIds s) :
    sid ∈ stepIds plan.steps ∨ sid ∈ completed ∨ sid ∈ available :=
  ref_of_valid (refs_of_validate h) hs hr

/-! ### Pairs of steps -/

/-- What the guardrail checks of a pair: the references of `p` to `q`, and the tools together. -/
def Fits (registry : Registry) (p q : DagStep) : Prop :=
  (∀ x ∈ stepRefs p, x.ref.stepId = q.id → refErrors registry (stepMap [q]) [q.id] p x = []) ∧
    dangerousPair registry p q = false

instance (p q : DagStep) : Decidable (Fits registry p q) := inferInstanceAs (Decidable (_ ∧ _))

/-- The steps of an accepted plan fit each other. -/
theorem fits_of_validate (h : validate registry plan completed available = []) {p q : DagStep}
    (hp : p ∈ plan.steps) (hq : q ∈ plan.steps) : Fits registry p q := by
  refine ⟨fun x hx hid => ?_, dangerousPair_of_validate h hp hq⟩
  have hget : (stepMap plan.steps).get? x.ref.stepId = some q := by
    rw [hid]
    exact get?_stepMap (nodup_of_validate h) hq
  have hx0 := parseOutputRefs_eq_nil_iff.mp (refs_of_validate h) p hp x hx
  rwa [refErrors_target (mem_of_refErrors_eq_nil hx0) hget hid rfl rfl] at hx0

/-- Only the id, the tool and the input of a target matter. -/
theorem Fits.of_same {p q q' : DagStep} (h : Fits registry p q) (hid : q'.id = q.id)
    (htool : q'.tool = q.tool) (hinput : q'.input = q.input) : Fits registry p q' := by
  refine ⟨fun x hx hx' => ?_, ?_⟩
  · have hget : (stepMap [q]).get? x.ref.stepId = some q := by
      rw [hx', hid]
      exact get?_stepMap (by simp [stepIds]) List.mem_cons_self
    have hmem : x.ref.stepId ∈ [q.id] := by simp [hx', hid]
    rw [← refErrors_target hmem hget hx' htool.symm hinput.symm]
    exact h.1 x hx (hx'.trans hid)
  · have := h.2
    unfold dangerousPair at this ⊢
    rwa [htool]

/-! ### Validation with and without context -/

/-- Every dependency and every reference of the steps names one of them. -/
def Closed (steps : List DagStep) : Prop :=
  ∀ s ∈ steps, (∀ d ∈ s.dependsOn, d ∈ stepIds steps) ∧ ∀ sid ∈ refIds s, sid ∈ stepIds steps

instance (steps : List DagStep) : Decidable (Closed steps) :=
  inferInstanceAs (Decidable (∀ s ∈ steps, _))

theorem validateDagStructure_nil_iff (h : validateDagStructure plan completed available = []) :
    validateDagStructure plan [] [] = [] ↔
      ∀ s ∈ plan.steps, ∀ d ∈ s.dependsOn, d ∈ stepIds plan.steps := by
  by_cases hne : plan.steps = []
  · simp [validateDagStructure, hne]
  constructor
  · intro h0 s hs d hd
    have := (dep_of_valid h0 hs hd).2
    simpa using this
  · intro hdeps
    obtain ⟨h1, _, h3, h4⟩ := validateDagStructure_eq_nil h hne
    obtain ⟨hids, _, hid⟩ := uniqueIds_spec 0 plan.steps [] List.nodup_nil h1
    rw [List.nil_append] at hids
    have h5 : plan.steps.flatMap (dependencyErrors (stepIds plan.steps) []) = [] := by
      rw [List.flatMap_eq_nil_iff]
      intro s hs
      rw [dependencyErrors_eq_nil_iff (hid s hs)]
      exact fun d hd => ⟨(dep_of_valid h hs hd).1, .inl (hdeps s hs d hd)⟩
    unfold validateDagStructure
    simp [hids, h1, h3, h4, h5]

theorem parseOutputRefs_nil_iff (h : parseOutputRefs registry plan completed available = []) :
    parseOutputRefs registry plan [] [] = [] ↔
      ∀ s ∈ plan.steps, ∀ sid ∈ refIds s, sid ∈ stepIds plan.steps := by
  constructor
  · intro h0 s hs sid hr
    have := ref_of_valid h0 hs hr
    simpa using this
  · intro hrefs
    rw [parseOutputRefs_eq_nil_iff] at h ⊢
    intro s hs r hr
    have hin : r.ref.stepId ∈ (stepMap plan.steps).keys :=
      mem_keys_stepMap.mpr (hrefs s hs _ (List.mem_map_of_mem hr))
    rw [← h s hs r hr]
    exact refErrors_congr (by simp [hin]) (by simp [hin])

/-- **What separates the two verdicts**: a plan accepted in a context is accepted without it
exactly when it names no step outside itself. -/
theorem validate_nil_iff_closed (h : validate registry plan completed available = []) :
    validate registry plan [] [] = [] ↔ Closed plan.steps := by
  rcases validate_eq_nil_iff.mp h with hnil | ⟨h1, h2, h3, h4, h5⟩
  · simp [validate, hnil, Closed]
  by_cases hne : plan.steps = []
  · simp [validate, hne, Closed]
  rw [validate_eq_nil_iff, validateDagStructure_nil_iff h2, parseOutputRefs_nil_iff h3]
  simp only [hne, h1, h4, h5, false_or, true_and, and_true]
  exact ⟨fun hc s hs => ⟨hc.1 s hs, hc.2 s hs⟩, fun hc => ⟨fun s hs => (hc s hs).1, fun s hs => (hc s hs).2⟩⟩

end JAgent
