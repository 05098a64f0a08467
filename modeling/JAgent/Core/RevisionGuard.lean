import JAgent.Core.PlanGuardrail

/-! # Revisions

The trusted handling of a revised plan: the degenerate-revision guard compares action
signatures (`findDegenerateRevisedSteps`), and `mergeRevisedPlan` merges a revision into the
run.  The merge has three parts, each a definition of its own: it binds failed original steps
to their replacements (`bindAliases`), restores original steps that are still to do
(`restoredSteps`), and drops results that are no longer canonical (`clearedResults`).

`BindSpec` says what binding can do to the aliases; the results after the merge are given by
`get?_clearedResults`. -/

namespace JAgent

abbrev Results := Lib.Dict String StepResult

abbrev Aliases := Lib.Dict String String

/-- `step_aliases.get(sid, sid)`. -/
def canonical (aliases : Aliases) (sid : String) : String := aliases.getD sid sid

/-- There is a result and it satisfies a predicate. -/
def Results.holdsAt (results : Results) (p : StepResult → Bool) (sid : String) : Bool :=
  match results.get? sid with
  | some r => p r
  | none => false

/-- There is a result and it is normal. -/
def normalAt (results : Results) (sid : String) : Bool :=
  Results.holdsAt results StepResult.stepNormal sid

/-- There is a result and its output can be referenced. -/
def availableAt (results : Results) (sid : String) : Bool :=
  Results.holdsAt results StepResult.outputAvailable sid

/-- `{sid for sid, r in results.items() if p r}`. -/
def Results.idsWith (results : Results) (p : StepResult → Bool) : List String :=
  (results.items.filter fun kr => p kr.2).map Prod.fst

theorem Results.holdsAt_iff {results : Results} {p : StepResult → Bool} {sid : String} :
    Results.holdsAt results p sid = true ↔ ∃ r, results.get? sid = some r ∧ p r = true := by
  unfold Results.holdsAt
  cases results.get? sid <;> simp

theorem Results.mem_idsWith {results : Results} {p : StepResult → Bool} {sid : String} :
    sid ∈ Results.idsWith results p ↔ Results.holdsAt results p sid = true := by
  rw [Results.holdsAt_iff]
  unfold Results.idsWith
  simp only [List.mem_map, List.mem_filter, Prod.exists, exists_and_right, exists_eq_right,
    Lib.Dict.mem_items_iff]

theorem availableAt_of_normalAt {results : Results} {sid : String}
    (h : normalAt results sid = true) : availableAt results sid = true := by
  obtain ⟨r, hr, hn⟩ := Results.holdsAt_iff.mp h
  exact Results.holdsAt_iff.mpr ⟨r, hr, StepResult.outputAvailable_of_stepNormal hn⟩

/-! ### The degenerate-revision guard -/

section degenerate
variable [Py]

/-- A result that ran and did not achieve anything: FAILED, or UNSUCCESSFUL without probe. -/
def ranAndFailedResult (r : StepResult) : Bool :=
  r.execState = .failed || (r.execState = .unsuccessful && !r.probe)

/-- The work list of `_closure`, top of the stack first; `fuel` bounds the pops. -/
def closureLoop (smap : Lib.Dict String DagStep) : ℕ → List String → List String → List String
  | 0, _, seen => seen
  | _ + 1, [], seen => seen
  | fuel + 1, cur :: stack, seen =>
    if seen.contains cur then closureLoop smap fuel stack seen
    else match smap.get? cur with
      | some step => closureLoop smap fuel
          ((step.dependsOn.filter fun d => (smap.get? d).isSome).reverse ++ stack) (seen ++ [cur])
      | none => closureLoop smap fuel stack (seen ++ [cur])

/-- The transitive dependencies of a step inside the revision; every step pushes its
dependencies once, which bounds the pops. -/
def dependencyClosure (revised : DagPlan) (sid : String) : List String :=
  closureLoop (stepMap revised.steps) ((dependencyPairs revised.steps).length + 2) [sid] []

/-- `find_degenerate_revised_steps`: revised steps that repeat a failed action and add no new
step upstream. -/
def findDegenerateRevisedSteps (plan : DagPlan) (results : Results) (revised : DagPlan) :
    List String :=
  let seenSigs := plan.steps.map stepSignature
  let failedSigs := (plan.steps.filter fun s => Results.holdsAt results ranAndFailedResult s.id).map
    stepSignature
  if failedSigs.isEmpty then []
  else
    let smap := stepMap revised.steps
    (revised.steps.filter fun rs =>
      failedSigs.contains (stepSignature rs) &&
      (dependencyClosure revised rs.id).all fun cid => match smap.get? cid with
        | some s => seenSigs.contains (stepSignature s)
        | none => true).map DagStep.id

/-- The reason a run fails with when the revisions keep being degenerate. -/
def degenerateError (degenerate invariantErrors : List String) : String :=
  "Degenerate self-heal: step(s) " ++ join ", " degenerate ++ " kept repeating a " ++
    "failed action (same tool+input, no new dependency) — not converging" ++
    (if invariantErrors.isEmpty then "" else "; invariant violations: " ++ join "; " invariantErrors)

end degenerate

/-! ### Binding replacements -/

section merge
variable [Py] (root current revised : DagPlan) (results : Results)

/-- The root steps whose canonical result is not normal. -/
def unresolvedIds (aliases : Aliases) : List String :=
  (stepIds root.steps).filter fun sid => !normalAt results (canonical aliases sid)

/-- The revised steps that are new to the run. -/
def replacementIds : List String :=
  (stepMap revised.steps).keys.filter fun sid =>
    !(stepIds root.steps).contains sid && !(stepIds current.steps).contains sid

/-- The accumulators of the binding loop. -/
structure Binding where
  aliases : Aliases
  replacements : List String
  originals : List String

/-- States in which an original step may be replaced. -/
def replaceable (r : StepResult) : Bool :=
  r.execState = .failed || r.execState = .unsuccessful || r.execState = .skipped

/-- States of a step that ran and failed. -/
def ranAndFailed (r : StepResult) : Bool := r.execState = .failed || r.execState = .unsuccessful

/-- One round of the loop: bind an original to the only replacement with its signature. -/
def bindOne (b : Binding) (originalId : String) : Binding :=
  if Results.holdsAt results replaceable (canonical b.aliases originalId) then
    match b.replacements.filter fun sid =>
        ((stepMap revised.steps).get? sid).map stepSignature =
          ((stepMap root.steps).get? originalId).map stepSignature with
    | [m] => { b with
        aliases := b.aliases.set originalId m
        replacements := b.replacements.filter (· ≠ m) }
    | _ => { b with originals := b.originals ++ [originalId] }
  else b

/-- The signature matches of all unresolved steps. -/
def bindBySignature (aliases : Aliases) : Binding :=
  (unresolvedIds root results aliases).foldl (bindOne root revised results)
    ⟨aliases, replacementIds root current revised, []⟩

/-- The forced binding: exactly one replacement and exactly one failed original are left. -/
def bindForced (b : Binding) : Aliases :=
  match b.replacements, b.originals.filter fun sid =>
      Results.holdsAt results ranAndFailed (canonical b.aliases sid) with
  | [m], [originalId] => b.aliases.set originalId m
  | _, _ => b.aliases

/-- The aliases after a merge. -/
def bindAliases (aliases : Aliases) : Aliases :=
  bindForced results (bindBySignature root current revised results aliases)

/-! ### Restoring original steps and clearing results -/

/-- The original step with its dependencies rewritten through the aliases. -/
def rewriteDeps (aliases : Aliases) (step : DagStep) : DagStep :=
  { step with dependsOn := step.dependsOn.map (canonical aliases) }

/-- The original steps that are neither replaced, nor listed again, nor already normal. -/
def restoredSteps (aliases : Aliases) : List DagStep :=
  ((stepMap root.steps).values.filter fun s =>
    canonical aliases s.id = s.id && !(stepIds revised.steps).contains s.id &&
      !normalAt results s.id).map (rewriteDeps aliases)

/-- The steps of the merged plan. -/
def mergedSteps (aliases : Aliases) : List DagStep :=
  (stepMap revised.steps).values ++ restoredSteps root revised results aliases

/-- Drop the results of merged steps that are not normal, and of replaced originals. -/
def clearedResults (aliases : Aliases) (steps : List DagStep) : Results :=
  (results.popMany ((stepIds steps).filter fun sid =>
      Results.holdsAt results (fun r => !r.stepNormal) sid)).popMany
    ((aliases.items.filter fun kv => kv.2 ≠ kv.1).map Prod.fst)

/-- What a merge produces: the merged plan and the mutated results and aliases. -/
structure Merge where
  plan : DagPlan
  results : Results
  aliases : Aliases

/-- `merge_revised_plan`. -/
def mergeRevisedPlan (aliases : Aliases) : Merge :=
  let aliases' := bindAliases root current revised results aliases
  let steps := mergedSteps root revised results aliases'
  { plan := { revised with steps := steps }
    results := clearedResults results aliases' steps
    aliases := aliases' }

end merge

/-- `merge_step_tasks`: annotate results with the planner's own assessment. -/
def mergeStepTasks (results : Results) (revised : DagPlan) : Results :=
  revised.stepTasks.foldl (fun results st =>
    match results.get? st.1, TaskState.ofValue? st.2 with
    | some r, some ts => results.set st.1 { r with taskState := ts }
    | _, _ => results) results

/-! ### What a merge does -/

section spec
variable {root current revised : DagPlan} {results : Results} {aliases : Aliases}

@[simp] theorem rewriteDeps_id (s : DagStep) : (rewriteDeps aliases s).id = s.id := rfl

@[simp] theorem rewriteDeps_tool (s : DagStep) : (rewriteDeps aliases s).tool = s.tool := rfl

@[simp] theorem rewriteDeps_input (s : DagStep) : (rewriteDeps aliases s).input = s.input := rfl

theorem mem_unresolvedIds {sid : String} : sid ∈ unresolvedIds root results aliases ↔
    sid ∈ stepIds root.steps ∧ normalAt results (canonical aliases sid) = false := by
  simp [unresolvedIds]

theorem mem_replacementIds {sid : String} : sid ∈ replacementIds root current revised ↔
    sid ∈ stepIds revised.steps ∧ sid ∉ stepIds root.steps ∧ sid ∉ stepIds current.steps := by
  simp [replacementIds, mem_keys_stepMap]

/-- Aliases differ from the given ones only at originals bound to a new replacement. -/
structure BindSpec (root current revised : DagPlan) (aliases aliases' : Aliases) : Prop where
  get? : ∀ k, aliases'.get? k = aliases.get? k ∨
    (k ∈ stepIds root.steps ∧ ∃ a ∈ replacementIds root current revised, aliases'.get? k = some a)

/-- The loop invariant of the binding. -/
structure BindInv (root current revised : DagPlan) (aliases : Aliases) (b : Binding) : Prop
    extends BindSpec root current revised aliases b.aliases where
  replacements : ∀ sid ∈ b.replacements, sid ∈ replacementIds root current revised
  originals : ∀ sid ∈ b.originals, sid ∈ stepIds root.steps

theorem BindSpec.set {aliases' : Aliases} (h : BindSpec root current revised aliases aliases')
    {k a : String} (hk : k ∈ stepIds root.steps) (ha : a ∈ replacementIds root current revised) :
    BindSpec root current revised aliases (aliases'.set k a) where
  get? k' := by
    rw [Lib.Dict.get?_set]
    by_cases hkk : k = k'
    · exact .inr ⟨hkk ▸ hk, a, ha, by simp [hkk]⟩
    · simpa [hkk] using h.get? k'

theorem BindInv.bindOne [Py] {b : Binding} (h : BindInv root current revised aliases b) {sid : String}
    (hsid : sid ∈ stepIds root.steps) :
    BindInv root current revised aliases (bindOne root revised results b sid) := by
  unfold JAgent.bindOne
  split_ifs
  · split
    next m hm =>
      have hmem : m ∈ b.replacements :=
        List.mem_of_mem_filter (hm.symm ▸ List.mem_singleton.mpr rfl)
      refine ⟨h.toBindSpec.set hsid (h.replacements m hmem), fun x hx => ?_, h.originals⟩
      exact h.replacements x (List.mem_of_mem_filter hx)
    next =>
      refine ⟨h.toBindSpec, h.replacements, fun x hx => ?_⟩
      rcases List.mem_append.mp hx with hx | hx
      · exact h.originals x hx
      · rw [List.mem_singleton.mp hx]
        exact hsid
  · exact h

theorem bindBySignature_inv [Py] :
    BindInv root current revised aliases (bindBySignature root current revised results aliases) := by
  have hfold : ∀ (ids : List String) (b : Binding), (∀ sid ∈ ids, sid ∈ stepIds root.steps) →
      BindInv root current revised aliases b →
      BindInv root current revised aliases (ids.foldl (bindOne root revised results) b) := by
    intro ids
    induction ids with
    | nil => exact fun b _ hb => hb
    | cons sid ids ih =>
        intro b hids hb
        exact ih _ (fun x hx => hids x (List.mem_cons_of_mem _ hx))
          (hb.bindOne (hids sid List.mem_cons_self))
  refine hfold _ _ (fun sid hsid => (mem_unresolvedIds.mp hsid).1) ⟨⟨fun k => .inl rfl⟩, ?_, ?_⟩
  · exact fun sid hsid => hsid
  · simp

/-- **Binding only adds aliases from root steps to new replacements.** -/
theorem bindAliases_spec [Py] :
    BindSpec root current revised aliases (bindAliases root current revised results aliases) := by
  have h : BindInv root current revised aliases
    (bindBySignature root current revised results aliases) := bindBySignature_inv
  unfold bindAliases bindForced
  split
  next m orig hm ho =>
    have horig : orig ∈ (bindBySignature root current revised results aliases).originals :=
      List.mem_of_mem_filter (ho.symm ▸ List.mem_singleton.mpr rfl)
    exact h.toBindSpec.set (h.originals orig horig) (h.replacements m (by simp [hm]))
  next => exact h.toBindSpec

/-- Binding keeps the canonical id of a step, or moves a root step to a new replacement. -/
theorem BindSpec.canonical {aliases' : Aliases} (h : BindSpec root current revised aliases aliases')
    (sid : String) : canonical aliases' sid = canonical aliases sid ∨
      (sid ∈ stepIds root.steps ∧ canonical aliases' sid ∈ replacementIds root current revised) := by
  unfold JAgent.canonical Lib.Dict.getD
  rcases h.get? sid with he | ⟨hroot, a, ha, he⟩
  · exact .inl (by rw [he])
  · exact .inr ⟨hroot, by simpa [he] using ha⟩

/-- The aliases of a run: keys are root ids, and each is its own alias or stands for a step
that is not a root step. -/
structure AliasesOk (root : DagPlan) (aliases : Aliases) : Prop where
  key : ∀ k a, aliases.get? k = some a → k ∈ stepIds root.steps
  val : ∀ k a, aliases.get? k = some a → a = k ∨ a ∉ stepIds root.steps

theorem AliasesOk.of_spec {aliases' : Aliases} (h : AliasesOk root aliases)
    (hs : BindSpec root current revised aliases aliases') : AliasesOk root aliases' where
  key k a hk := by
    rcases hs.get? k with he | ⟨hroot, _⟩
    · exact h.key k a (he ▸ hk)
    · exact hroot
  val k a hk := by
    rcases hs.get? k with he | ⟨_, a', ha', he⟩
    · exact h.val k a (he ▸ hk)
    · rw [he] at hk
      cases hk
      exact .inr (mem_replacementIds.mp ha').2.1

theorem AliasesOk.canonical (h : AliasesOk root aliases) (sid : String) :
    canonical aliases sid = sid ∨
      (sid ∈ stepIds root.steps ∧ canonical aliases sid ∉ stepIds root.steps) := by
  unfold JAgent.canonical Lib.Dict.getD
  cases hk : aliases.get? sid with
  | none => exact .inl rfl
  | some a =>
      rcases h.val sid a hk with rfl | ha
      · exact .inl rfl
      · exact .inr ⟨h.key sid a hk, ha⟩

/-- A root id is canonical only for itself. -/
theorem AliasesOk.eq_of_root (h : AliasesOk root aliases) {sid : String}
    (hroot : JAgent.canonical aliases sid ∈ stepIds root.steps) : JAgent.canonical aliases sid = sid :=
  (h.canonical sid).resolve_right fun hc => hc.2 hroot

/-- A step that is not a root step is never replaced. -/
theorem AliasesOk.canonical_of_not_root (h : AliasesOk root aliases) {sid : String}
    (hs : sid ∉ stepIds root.steps) : JAgent.canonical aliases sid = sid :=
  (h.canonical sid).resolve_right fun hc => hs hc.1

/-- A replacement is not a root step. -/
theorem AliasesOk.not_root (h : AliasesOk root aliases) {sid : String}
    (hs : JAgent.canonical aliases sid ≠ sid) : JAgent.canonical aliases sid ∉ stepIds root.steps :=
  ((h.canonical sid).resolve_left hs).2

theorem mem_aliased {sid : String} :
    sid ∈ (aliases.items.filter fun kv => kv.2 ≠ kv.1).map Prod.fst ↔
      canonical aliases sid ≠ sid := by
  unfold JAgent.canonical Lib.Dict.getD
  constructor
  · intro h
    obtain ⟨⟨k, a⟩, hka, rfl⟩ := List.mem_map.mp h
    rw [List.mem_filter, Lib.Dict.mem_items_iff] at hka
    rw [hka.1]
    simpa using hka.2
  · intro h
    cases hk : aliases.get? sid with
    | none => simp [hk] at h
    | some a =>
        refine List.mem_map.mpr ⟨(sid, a), List.mem_filter.mpr ⟨Lib.Dict.mem_items_iff.mpr hk, ?_⟩, rfl⟩
        simpa [hk] using h

/-- **The results after a merge**: replaced originals and non-normal merged steps are gone,
everything else is unchanged. -/
theorem get?_clearedResults {steps : List DagStep} {sid : String} :
    (clearedResults results aliases steps).get? sid =
      if canonical aliases sid ≠ sid then none
      else if sid ∈ stepIds steps ∧ normalAt results sid = false then none
      else results.get? sid := by
  unfold clearedResults
  rw [Lib.Dict.get?_popMany, Lib.Dict.get?_popMany]
  simp only [mem_aliased]
  by_cases h1 : canonical aliases sid ≠ sid
  · rw [if_pos h1, if_pos h1]
  rw [if_neg h1, if_neg h1]
  cases hr : results.get? sid with
  | none => simp
  | some r => simp [List.mem_filter, normalAt, Results.holdsAt, hr]

theorem normalAt_clearedResults {steps : List DagStep} {sid : String} :
    normalAt (clearedResults results aliases steps) sid =
      (decide (canonical aliases sid = sid) && normalAt results sid) := by
  unfold normalAt Results.holdsAt
  rw [get?_clearedResults]
  by_cases h1 : canonical aliases sid = sid
  · simp only [h1, ne_eq, not_true, if_false, decide_true, Bool.true_and]
    by_cases h2 : sid ∈ stepIds steps ∧ normalAt results sid = false
    · rw [if_pos h2]
      have := h2.2
      unfold normalAt Results.holdsAt at this
      exact this.symm
    · rw [if_neg h2]
  · simp [h1]

theorem holdsAt_cleared {results : Results} {aliases : Aliases} {steps : List DagStep}
    {p : StepResult → Bool} {sid : String}
    (h : Results.holdsAt (clearedResults results aliases steps) p sid = true) :
    canonical aliases sid = sid ∧ Results.holdsAt results p sid = true := by
  obtain ⟨r, hr, hp⟩ := Results.holdsAt_iff.mp h
  rw [get?_clearedResults] at hr
  split_ifs at hr with h1 h2
  exact ⟨not_not.mp h1, Results.holdsAt_iff.mpr ⟨r, hr, hp⟩⟩

/-- The values of the step map carry their keys as ids. -/
theorem stepIds_values_stepMap (steps : List DagStep) :
    stepIds (stepMap steps).values = (stepMap steps).keys := by
  unfold stepIds Lib.Dict.values Lib.Dict.keys
  rw [List.map_map]
  refine List.map_congr_left fun kv hkv => ?_
  obtain ⟨t, _, he⟩ := List.mem_map.mp (Lib.Dict.mem_of_get?_ofPairs (Lib.Dict.mem_items_iff.mp hkv))
  obtain ⟨h1, h2⟩ := Prod.mk.inj he
  rw [Function.comp_apply, ← h1, ← h2]

theorem mem_restoredSteps (hn : (stepIds root.steps).Nodup) {m : DagStep} :
    m ∈ restoredSteps root revised results aliases ↔
      ∃ s ∈ root.steps, canonical aliases s.id = s.id ∧ s.id ∉ stepIds revised.steps ∧
        normalAt results s.id = false ∧ m = rewriteDeps aliases s := by
  unfold restoredSteps
  simp only [List.mem_map, List.mem_filter, values_stepMap hn, Bool.and_eq_true,
    decide_eq_true_eq, Bool.not_eq_true', List.contains_eq_mem, decide_eq_false_iff_not]
  constructor
  · rintro ⟨s, ⟨hs, ⟨h1, h2⟩, h3⟩, rfl⟩
    exact ⟨s, hs, h1, h2, h3, rfl⟩
  · rintro ⟨s, hs, h1, h2, h3, rfl⟩
    exact ⟨s, ⟨hs, ⟨h1, h2⟩, h3⟩, rfl⟩

/-- The merged steps: those of the revision, and the root steps that are still to do. -/
theorem mem_mergedSteps (hn : (stepIds root.steps).Nodup) {m : DagStep} :
    m ∈ mergedSteps root revised results aliases ↔
      m ∈ (stepMap revised.steps).values ∨ ∃ s ∈ root.steps, canonical aliases s.id = s.id ∧
        s.id ∉ stepIds revised.steps ∧ normalAt results s.id = false ∧ m = rewriteDeps aliases s := by
  unfold mergedSteps
  rw [List.mem_append, mem_restoredSteps hn]

theorem mem_stepIds_restoredSteps (hn : (stepIds root.steps).Nodup) {sid : String} :
    sid ∈ stepIds (restoredSteps root revised results aliases) ↔
      sid ∈ stepIds root.steps ∧ canonical aliases sid = sid ∧ sid ∉ stepIds revised.steps ∧
        normalAt results sid = false := by
  constructor
  · intro h
    obtain ⟨m, hm, rfl⟩ := List.mem_map.mp h
    obtain ⟨s, hs, h1, h2, h3, rfl⟩ := (mem_restoredSteps hn).mp hm
    rw [rewriteDeps_id]
    exact ⟨List.mem_map_of_mem hs, h1, h2, h3⟩
  · rintro ⟨hroot, h1, h2, h3⟩
    obtain ⟨s, hs, rfl⟩ := List.mem_map.mp hroot
    exact List.mem_map.mpr ⟨_, (mem_restoredSteps hn).mpr ⟨s, hs, h1, h2, h3, rfl⟩, rfl⟩

/-- The ids of the merged plan: the revised ids and the root ids that are still to do. -/
theorem mem_stepIds_mergedSteps (hn : (stepIds root.steps).Nodup) {sid : String} :
    sid ∈ stepIds (mergedSteps root revised results aliases) ↔
      sid ∈ stepIds revised.steps ∨ (sid ∈ stepIds root.steps ∧ canonical aliases sid = sid ∧
        normalAt results sid = false) := by
  have hsplit : stepIds (mergedSteps root revised results aliases) =
      (stepMap revised.steps).keys ++ stepIds (restoredSteps root revised results aliases) := by
    rw [← stepIds_values_stepMap]
    exact List.map_append
  rw [hsplit, List.mem_append, mem_keys_stepMap, mem_stepIds_restoredSteps hn]
  tauto

/-- Annotating results changes no execution state. -/
theorem mergeStepTasks_get? (results : Results) (revised : DagPlan) (sid : String) :
    (results.get? sid = none ∧ (mergeStepTasks results revised).get? sid = none) ∨
    ∃ r ts, results.get? sid = some r ∧
      (mergeStepTasks results revised).get? sid = some { r with taskState := ts } := by
  unfold mergeStepTasks
  induction revised.stepTasks generalizing results with
  | nil =>
      cases h : results.get? sid with
      | none => exact .inl ⟨rfl, h⟩
      | some r => exact .inr ⟨r, r.taskState, rfl, h⟩
  | cons st sts ih =>
      rw [List.foldl_cons]
      split
      next r ts hr hts =>
        by_cases hs : st.1 = sid
        · subst hs
          rcases ih (results.set st.1 { r with taskState := ts }) with ⟨h1, _⟩ | ⟨r', ts', h1, h2⟩
          · simp at h1
          · rw [Lib.Dict.get?_set, if_pos rfl] at h1
            cases h1
            exact .inr ⟨r, ts', hr, h2⟩
        · rcases ih (results.set st.1 { r with taskState := ts }) with ⟨h1, h2⟩ | ⟨r', ts', h1, h2⟩
          · simp only [Lib.Dict.get?_set, if_neg hs] at h1
            exact .inl ⟨h1, h2⟩
          · simp only [Lib.Dict.get?_set, if_neg hs] at h1
            exact .inr ⟨r', ts', h1, h2⟩
      next => exact ih results

/-- A result that only differs in its annotation is in the same id sets. -/
theorem idsWith_set {p : StepResult → Bool} {sid : String} {r r' : StepResult}
    (hr : results.get? sid = some r) (hp : p r' = p r) :
    Results.idsWith (results.set sid r') p = Results.idsWith results p := by
  have hk : sid ∈ results.keys := Lib.Dict.mem_keys_iff.mpr ⟨r, hr⟩
  have hitems : ∀ kv ∈ results.items, kv.1 = sid → p kv.2 = p r' := by
    rintro ⟨k, v⟩ hkv rfl
    rw [Lib.Dict.mem_items_iff, hr] at hkv
    cases hkv
    exact hp.symm
  unfold Results.idsWith Lib.Dict.set
  rw [dif_pos hk]
  simp only [Lib.Dict.replace]
  generalize results.items = items at hitems
  induction items with
  | nil => rfl
  | cons kv items ih =>
      have ih := ih fun x hx => hitems x (List.mem_cons_of_mem _ hx)
      rw [List.map_cons, List.filter_cons, List.filter_cons]
      by_cases h : kv.1 = sid
      · have hv := hitems kv List.mem_cons_self h
        simp only [h, if_true, hv]
        split_ifs <;> simp [ih, h]
      · simp only [h, if_false]
        split_ifs <;> simp [ih]

theorem idsWith_mergeStepTasks {p : StepResult → Bool}
    (hp : ∀ r ts, p { r with taskState := ts } = p r) (results : Results) (revised : DagPlan) :
    Results.idsWith (mergeStepTasks results revised) p = Results.idsWith results p := by
  unfold mergeStepTasks
  induction revised.stepTasks generalizing results with
  | nil => rfl
  | cons st sts ih =>
      rw [List.foldl_cons, ih]
      split
      next r ts hr _ => exact idsWith_set hr (hp r ts)
      next => rfl

/-- Annotations do not change which results satisfy a predicate on execution states. -/
theorem holdsAt_mergeStepTasks {p : StepResult → Bool}
    (hp : ∀ r ts, p { r with taskState := ts } = p r) (results : Results) (revised : DagPlan)
    (sid : String) :
    Results.holdsAt (mergeStepTasks results revised) p sid = Results.holdsAt results p sid := by
  unfold Results.holdsAt
  rcases mergeStepTasks_get? results revised sid with ⟨h1, h2⟩ | ⟨r, ts, h1, h2⟩
  · rw [h1, h2]
  · rw [h1, h2]
    exact hp r ts

end spec
end JAgent
