import JAgent.Lib.Kahn
import JAgent.Models.Tools

/-! # Plans

Steps, plans, the structural match of a step against a required operation (`stepSatisfies`),
the pure structure check of the plan guardrail (`validateDagStructure`) and the layering used
by the executor (`topologicalSort`).

A step input is always a JSON object here, so the checks for a non-object input have no
counterpart. -/

namespace JAgent

structure DagStep where
  id : String := ""
  tool : String := ""
  input : Obj := []
  dependsOn : List String := []
  description : String := ""
  maxParallel : ℤ := 10
  probe : Bool := false
deriving DecidableEq

/-- A structured step-output reference; `fieldPath` is empty for the whole output. -/
structure OutputRef where
  stepId : String := ""
  fieldPath : String := ""
deriving DecidableEq

/-- An operation a step has to match: the self-check declarations of a plan and the delivery
contracts both have this shape. -/
structure RequiredOperation where
  tool : String := ""
  input : Obj := []
deriving DecidableEq

structure DagPlan where
  userIntent : String := ""
  intent : String := ""
  steps : List DagStep := []
  failed : Bool := false
  stepTasks : List (String × String) := []
  declaredOperations : List RequiredOperation := []
deriving DecidableEq

/-- The ids of a list of steps. -/
def stepIds (steps : List DagStep) : List String := steps.map DagStep.id

/-- `{s.id: s for s in steps}`. -/
def stepMap (steps : List DagStep) : Lib.Dict String DagStep :=
  .ofPairs (steps.map fun s => (s.id, s))

theorem mem_keys_stepMap {steps : List DagStep} {sid : String} :
    sid ∈ (stepMap steps).keys ↔ sid ∈ stepIds steps := by
  unfold stepMap stepIds
  rw [Lib.Dict.mem_keys_ofPairs, List.map_map]
  rfl

/-- With distinct ids, the step map lists the steps in their order. -/
theorem items_stepMap {steps : List DagStep} (hn : (stepIds steps).Nodup) :
    (stepMap steps).items = steps.map fun s => (s.id, s) := by
  refine Lib.Dict.items_ofPairs ?_
  rw [List.map_map]
  exact hn

theorem values_stepMap {steps : List DagStep} (hn : (stepIds steps).Nodup) :
    (stepMap steps).values = steps := by
  unfold Lib.Dict.values
  rw [items_stepMap hn, List.map_map]
  exact List.map_id steps

theorem mem_of_mem_values_stepMap {steps : List DagStep} {s : DagStep}
    (hs : s ∈ (stepMap steps).values) : s ∈ steps := by
  obtain ⟨⟨k, v⟩, hkv, rfl⟩ := List.mem_map.mp hs
  obtain ⟨t, ht, he⟩ := List.mem_map.mp (Lib.Dict.mem_of_get?_ofPairs (Lib.Dict.mem_items_iff.mp hkv))
  cases he
  exact ht

theorem get?_stepMap {steps : List DagStep} (hn : (stepIds steps).Nodup) {s : DagStep}
    (hs : s ∈ steps) : (stepMap steps).get? s.id = some s := by
  rw [← Lib.Dict.mem_items_iff, items_stepMap hn]
  exact List.mem_map_of_mem hs

/-! ### Matching a step against a required operation -/

def workspaceRootAliases : List String :=
  [".", "./", "workspace", "workspace directory", "current directory", "the workspace",
    "/workspace", "root"]

namespace RequiredOperation
variable [Py]

/-- `path.strip().lower().rstrip("/") or "."`. -/
def normPath (path : String) : String :=
  match rstrip '/' (lower (strip path.toList)) with
  | [] => "."
  | cs => String.ofList cs

/-- For `list`, the spellings of the workspace root are one path; otherwise paths are compared
as text. -/
def pathsEquivalent (pathA pathB : String) (operation : Option Value) : Bool :=
  if pathA = pathB then true
  else if operation ≠ some (.str "list") then false
  else if workspaceRootAliases.contains (normPath pathA) then
    workspaceRootAliases.contains (normPath pathB)
  else false

/-- One declared key of the operation: `content` is never compared, `path` up to the spelling
of the workspace root, everything else for equality. -/
def keySatisfied (step : DagStep) (req : RequiredOperation) (key : String) (value : Value) : Bool :=
  if key = "content" then true
  else if key = "path" then
    pathsEquivalent (pyStr value)
      (match Obj.get? step.input key with
        | some .null | none => ""
        | some v => pyStr v)
      (Obj.get? req.input "operation")
  else Value.pyEq ((Obj.get? step.input key).getD .null) value

/-- The tool is the same and the step's input contains every declared key. -/
def stepSatisfies (step : DagStep) (req : RequiredOperation) : Bool :=
  step.tool = req.tool && req.input.all fun kv => keySatisfied step req kv.1 kv.2

/-- Only the action of a step decides whether it satisfies an operation. -/
theorem stepSatisfies_congr {s t : DagStep} (htool : s.tool = t.tool) (hinput : s.input = t.input)
    (req : RequiredOperation) : stepSatisfies s req = stepSatisfies t req := by
  unfold stepSatisfies keySatisfied
  rw [htool, hinput]

end RequiredOperation

inductive DeliverySource where
  | caller
  | extracted
deriving DecidableEq

/-- A delivery contract: the operation the user requires. -/
structure DeliveryContract extends RequiredOperation where
  contractId : String := ""
  source : DeliverySource := .extracted
deriving DecidableEq

/-! ### Errors of the plan guardrail -/

/-- What a rejected probe declaration was checked against. -/
inductive ProbeTarget where
  | operation (name : String)
  | tool (name : String)
deriving DecidableEq

def ProbeTarget.label : ProbeTarget → String
  | .operation name => "operation '" ++ name ++ "'"
  | .tool name => "tool '" ++ name ++ "'"

/-- The errors a plan can be rejected with. -/
inductive PlanError where
  | missingId (index : ℕ)
  | unknownTool (stepId tool : String)
  | probeNotAllowed (stepId : String) (target : ProbeTarget) (effects : List SideEffect)
  | duplicateId (stepId : String)
  | selfDependency (stepId : String)
  | unknownDependency (stepId dep : String)
  | cycle (path : List String)
  | hierarchy (stepId dep : String) (depLevel level : ℕ)
  | unknownReference (stepId ref : String)
  | refNotAllowed (stepId field : String)
  | refFieldMissing (stepId ref field opLabel : String)
  | declaredOperation (index : ℕ) (req : RequiredOperation)
  | dangerousCombination (tool other : String)
deriving DecidableEq

/-- The text of an error, as it is shown to the planner and written to the log. -/
def PlanError.message [Py] : PlanError → String
  | .missingId i => "Step " ++ toString i ++ " is missing 'id' field"
  | .unknownTool sid tool => "Step '" ++ sid ++ "': " ++ unknownToolMessage tool
  | .probeNotAllowed sid target effects =>
      "Step '" ++ sid ++ "': probe declaration is only allowed for side-effect-free " ++
        "(read-only/query) operations; " ++ target.label ++ " declares side_effects=" ++
        reprStrs (effects.map SideEffect.value)
  | .duplicateId sid => "Duplicate step id '" ++ sid ++ "'"
  | .selfDependency sid => "Step '" ++ sid ++ "' depends on itself"
  | .unknownDependency sid dep => "Step '" ++ sid ++ "': depends on unknown step '" ++ dep ++ "'"
  | .cycle path => "Cycle detected: " ++ join " -> " path
  | .hierarchy sid dep depLevel level =>
      "Step '" ++ sid ++ "' is scheduled before its dependency '" ++ dep ++
        "' (hierarchy inconsistency: dep level " ++ toString depLevel ++ " >= " ++
        toString level ++ ")"
  | .unknownReference sid ref =>
      "Step '" ++ sid ++ "': reference '$" ++ ref ++ "' targets unknown step '" ++ ref ++
        "' (not in plan, completed, or available)"
  | .refNotAllowed sid field =>
      "Step '" ++ sid ++ "': input field '" ++ field ++
        "' does not allow $step.output references (ref_allowed=False)"
  | .refFieldMissing sid ref field opLabel =>
      "Step '" ++ sid ++ "': reference '$" ++ ref ++ "." ++ field ++ "' — field '" ++ field ++
        "' not in operation " ++ opLabel ++ " output_schema"
  | .declaredOperation i req =>
      "Declared operation #" ++ toString i ++ " (" ++ req.tool ++ " " ++ pyRepr (.obj req.input) ++
        ") has no matching step in the plan. " ++
        "This is a self-check declaration — keep the plan self-consistent."
  | .dangerousCombination tool other =>
      "Dangerous combination: '" ++ tool ++ "' and '" ++ other ++
        "' cannot appear in the same plan"

/-! ### Cycle detection -/

inductive Colour where
  | white | gray | black
deriving DecidableEq

/-- The colours and the stack of the depth-first search. -/
structure DfsState where
  colour : Lib.Dict String Colour
  stack : List String

section cycle
variable (adjacency : Lib.Dict String (List String))

/-- The loop over the dependencies of one node; `dfs` is the recursive call. -/
def dfsLoop (dfs : String → DfsState → Option (List String) × DfsState) :
    List String → DfsState → Option (List String) × DfsState
  | [], st => (none, st)
  | nxt :: rest, st => match st.colour.getD nxt .white with
    | .gray => (some (st.stack.drop (st.stack.idxOf nxt) ++ [nxt]), st)
    | .white => match dfs nxt st with
      | (some c, st') => (some c, st')
      | (none, st') => dfsLoop dfs rest st'
    | .black => dfsLoop dfs rest st

/-- `_dfs`; `fuel` bounds the depth, which never exceeds the number of white nodes. -/
def dfs : ℕ → String → DfsState → Option (List String) × DfsState
  | 0, _, st => (none, st)
  | fuel + 1, sid, st =>
    match dfsLoop (dfs fuel) (adjacency.getD sid [])
        ⟨st.colour.set sid .gray, st.stack ++ [sid]⟩ with
    | (some c, st') => (some c, st')
    | (none, st') => (none, ⟨st'.colour.set sid .black, st'.stack.dropLast⟩)

/-- The outer loop over all nodes. -/
def cycleLoop (fuel : ℕ) : List String → DfsState → List String
  | [], _ => []
  | sid :: rest, st =>
    if st.colour.getD sid .white = .white then
      match dfs adjacency fuel sid st with
      | (some c, _) => c
      | (none, st') => cycleLoop fuel rest st'
    else cycleLoop fuel rest st

end cycle

/-- `_find_cycle`: the first cycle of the in-plan dependency graph as a path, else `[]`. -/
def findCycle [Py] (steps : List DagStep) (ids : List String) : List String :=
  let adjacency := Lib.Dict.ofPairs (steps.map fun s => (s.id, s.dependsOn.filter (ids.contains ·)))
  let order := Py.setOrder ids
  cycleLoop adjacency (ids.length + 1) order ⟨.ofPairs (order.map fun sid => (sid, .white)), []⟩

/-! ### Hierarchy check -/

section hierarchy
variable (smap : Lib.Dict String DagStep) (ids : List String)

/-- The levels of a list of dependencies, with the memo table threaded through. -/
def levelLoop (level : String → Lib.Dict String ℕ → ℕ × Lib.Dict String ℕ) :
    List String → Lib.Dict String ℕ → List ℕ × Lib.Dict String ℕ
  | [], memo => ([], memo)
  | d :: ds, memo =>
    let r := level d memo
    let rs := levelLoop level ds r.2
    (r.1 :: rs.1, rs.2)

/-- `_level`: one more than the deepest in-plan dependency. -/
def level : ℕ → String → Lib.Dict String ℕ → ℕ × Lib.Dict String ℕ
  | 0, _, memo => (0, memo)
  | fuel + 1, sid, memo => match memo.get? sid with
    | some n => (n, memo)
    | none => match smap.get? sid with
      | none => (0, memo)
      | some step =>
        let r := levelLoop (level fuel) (step.dependsOn.filter (ids.contains ·)) memo
        let lv := if r.1.isEmpty then 0 else r.1.foldr max 0 + 1
        (lv, r.2.set sid lv)

/-- The loop of `_hierarchy_errors` over the steps. -/
def hierarchyLoop (fuel : ℕ) : List DagStep → Lib.Dict String ℕ → List PlanError
  | [], _ => []
  | step :: rest, memo =>
    let r := level smap ids fuel step.id memo
    ((step.dependsOn.filter (ids.contains ·)).filter fun dep => r.1 ≤ r.2.getD dep 0).map
        (fun dep => PlanError.hierarchy step.id dep (r.2.getD dep 0) r.1) ++
      hierarchyLoop fuel rest r.2

end hierarchy

/-- `_hierarchy_errors`: every step lies above each of its in-plan dependencies. -/
def hierarchyErrors (steps : List DagStep) (ids : List String) : List PlanError :=
  hierarchyLoop (stepMap steps) ids (steps.length + 1) steps .empty

/-! ### Structure of a plan -/

/-- First pass: missing and duplicate ids; returns the set of ids seen. -/
def uniqueIds : ℕ → List DagStep → List String → List PlanError × List String
  | _, [], seen => ([], seen)
  | i, step :: rest, seen =>
    if step.id = "" then
      let r := uniqueIds (i + 1) rest seen
      (.missingId i :: r.1, r.2)
    else if seen.contains step.id then
      let r := uniqueIds (i + 1) rest seen
      (.duplicateId step.id :: r.1, r.2)
    else uniqueIds (i + 1) rest (seen ++ [step.id])

/-- Second pass: self dependencies and dependencies that are neither in the plan nor external. -/
def dependencyErrors (ids external : List String) (step : DagStep) : List PlanError :=
  if step.id = "" then []
  else step.dependsOn.filterMap fun dep =>
    if dep = step.id then some (.selfDependency step.id)
    else if !ids.contains dep && !external.contains dep then some (.unknownDependency step.id dep)
    else none

/-- `validate_dag_structure`. -/
def validateDagStructure [Py] (plan : DagPlan) (completed available : List String) :
    List PlanError :=
  if plan.steps.isEmpty then []
  else
    let r := uniqueIds 0 plan.steps []
    let errors := r.1 ++ plan.steps.flatMap (dependencyErrors r.2 (completed ++ available))
    if errors.isEmpty then
      let cycle := findCycle plan.steps r.2
      if cycle.isEmpty then hierarchyErrors plan.steps r.2 else [.cycle cycle]
    else errors

/-! ### Layering -/

/-- The errors `topological_sort` raises. -/
inductive SortError where
  | unknownDependency (stepId dep : String)
  | cycle
deriving DecidableEq

def SortError.message : SortError → String
  | .unknownDependency sid dep => "Step '" ++ sid ++ "': depends on unknown step '" ++ dep ++ "'"
  | .cycle => "Cycle detected in DAG plan"

/-- All dependency pairs, in the order in which the steps list them. -/
def dependencyPairs (steps : List DagStep) : List (String × String) :=
  steps.flatMap fun s => s.dependsOn.map fun d => (s.id, d)

/-- The pairs that become scheduling edges: the dependency is a step of the plan that is not
completed. -/
def schedulingEdges (steps : List DagStep) (completed : List String) : List (String × String) :=
  (dependencyPairs steps).filter fun e => (stepIds steps).contains e.2 && !completed.contains e.2

/-- `in_degree` after the loop over the edges. -/
def inDegrees (steps : List DagStep) (edges : List (String × String)) : Lib.Dict String ℤ :=
  edges.foldl (fun deg e => deg.set e.1 (deg.getD e.1 0 + 1))
    (.ofPairs ((stepIds steps).map fun sid => (sid, 0)))

/-- `adjacency` after the loop over the edges. -/
def successors (steps : List DagStep) (edges : List (String × String)) :
    Lib.Dict String (List String) :=
  edges.foldl (fun adj e => adj.set e.2 (adj.getD e.2 [] ++ [e.1]))
    (.ofPairs ((stepIds steps).map fun sid => (sid, [])))

/-- `topological_sort`: the layers of the steps that are not completed. -/
def topologicalSort (plan : DagPlan) (completed external : List String) :
    Except SortError (List (List String)) :=
  let ids := (stepMap plan.steps).keys
  match (dependencyPairs plan.steps).find? fun e =>
      !(ids.contains e.2 || completed.contains e.2 || external.contains e.2) with
  | some e => .error (.unknownDependency e.1 e.2)
  | none =>
    let edges := schedulingEdges plan.steps completed
    let deg := inDegrees plan.steps edges
    let queue := deg.keys.filter fun sid => deg.getD sid 0 = 0 ∧ completed.contains sid = false
    let layers := Lib.Kahn.layers (fun d => (successors plan.steps edges).getD d [])
      (completed.contains ·) (ids.length + 1) queue deg
    let visited := (ids.filter (completed.contains ·)).length + layers.flatten.length
    if visited = plan.steps.length then .ok layers else .error .cycle

/-! ### Correctness of the layering -/

theorem mem_schedulingEdges {steps : List DagStep} {completed : List String} {x d : String} :
    (x, d) ∈ schedulingEdges steps completed ↔
      (∃ s ∈ steps, s.id = x ∧ d ∈ s.dependsOn) ∧ d ∈ stepIds steps ∧ d ∉ completed := by
  unfold schedulingEdges dependencyPairs
  simp only [List.mem_filter, List.mem_flatMap, List.mem_map, Prod.mk.injEq, Bool.and_eq_true,
    Bool.not_eq_true', List.contains_eq_mem, decide_eq_true_eq, decide_eq_false_iff_not]
  constructor
  · rintro ⟨⟨s, hs, d', hd, rfl, rfl⟩, hids, hc⟩
    exact ⟨⟨s, hs, rfl, hd⟩, hids, hc⟩
  · rintro ⟨⟨s, hs, rfl, hd⟩, hids, hc⟩
    exact ⟨⟨s, hs, d, hd, rfl, rfl⟩, hids, hc⟩

section layering
variable {plan : DagPlan} {completed external : List String} {layers : List (List String)}

theorem mem_keys_inDegrees {steps : List DagStep} {x : String} :
    x ∈ (inDegrees steps (schedulingEdges steps completed)).keys ↔ x ∈ stepIds steps := by
  unfold inDegrees
  rw [Lib.Dict.mem_keys_foldl_count, Lib.Dict.mem_keys_ofPairs]
  simp only [List.map_map, Function.comp_def, List.map_id']
  constructor
  · rintro (h | h)
    · exact h
    · obtain ⟨⟨y, d⟩, he, rfl⟩ := List.mem_map.mp h
      obtain ⟨⟨s, hs, rfl, _⟩, _⟩ := mem_schedulingEdges.mp he
      exact List.mem_map_of_mem hs
  · exact .inl

theorem getD_ofPairs_const {α : Type} (ids : List String) (v : α) (x : String) :
    (Lib.Dict.ofPairs (ids.map fun sid => (sid, v))).getD x v = v := by
  unfold Lib.Dict.getD
  cases h : (Lib.Dict.ofPairs (ids.map fun sid => (sid, v))).get? x with
  | none => rfl
  | some w =>
      obtain ⟨_, _, hw⟩ := List.mem_map.mp (Lib.Dict.mem_of_get?_ofPairs h)
      cases hw
      rfl

/-- The tables of `topological_sort` present the scheduling edges to the layering. -/
theorem schedulingGraph (steps : List DagStep) (completed : List String) :
    Lib.Kahn.Graph
      (fun d => (successors steps (schedulingEdges steps completed)).getD d [])
      (completed.contains ·)
      (inDegrees steps (schedulingEdges steps completed)).keys
      (schedulingEdges steps completed) where
  succ_eq d := by
    unfold successors
    rw [Lib.Dict.getD_foldl_group, getD_ofPairs_const, List.nil_append]
  src_mem e he := by
    obtain ⟨⟨s, hs, hx, _⟩, _⟩ := mem_schedulingEdges.mp he
    rw [mem_keys_inDegrees, ← hx]
    exact List.mem_map_of_mem hs

/-- What `topological_sort` returns is the layering of the scheduling edges. -/
theorem topologicalSort_eq (h : topologicalSort plan completed external = .ok layers) :
    ∃ fuel queue, layers = Lib.Kahn.layers
        (fun d => (successors plan.steps (schedulingEdges plan.steps completed)).getD d [])
        (completed.contains ·) fuel queue
        (inDegrees plan.steps (schedulingEdges plan.steps completed)) ∧
      Lib.Kahn.Inv (completed.contains ·)
        (inDegrees plan.steps (schedulingEdges plan.steps completed)).keys
        (schedulingEdges plan.steps completed) []
        ⟨inDegrees plan.steps (schedulingEdges plan.steps completed), queue⟩ := by
  unfold topologicalSort at h
  simp only at h
  split at h
  · cases h
  · split_ifs at h with hv
    cases h
    refine ⟨_, _, rfl, Lib.Kahn.Inv.start (Lib.Dict.nodup _) ?_⟩
    intro x
    unfold inDegrees
    rw [Lib.Dict.getD_foldl_count, getD_ofPairs_const, zero_add]

/-- **Every layered id is an uncompleted step of the plan.** -/
theorem mem_of_topologicalSort (h : topologicalSort plan completed external = .ok layers)
    {l : List String} (hl : l ∈ layers) {sid : String} (hsid : sid ∈ l) :
    sid ∈ stepIds plan.steps ∧ sid ∉ completed := by
  obtain ⟨fuel, queue, rfl, hinv⟩ := topologicalSort_eq h
  obtain ⟨h1, h2⟩ := Lib.Kahn.mem_layers (schedulingGraph plan.steps completed) hinv hl hsid
  exact ⟨mem_keys_inDegrees.mp h1, by simpa using h2⟩

/-- **Layers are disjoint and repeat nothing.** -/
theorem nodup_of_topologicalSort (h : topologicalSort plan completed external = .ok layers)
    {L₁ L₂ : List (List String)} {l : List String} (hl : layers = L₁ ++ l :: L₂) :
    (L₁.flatten ++ l).Nodup := by
  obtain ⟨fuel, queue, rfl, hinv⟩ := topologicalSort_eq h
  exact Lib.Kahn.layers_nodup (schedulingGraph plan.steps completed) hinv hl

theorem nodup_flatten_of_topologicalSort (h : topologicalSort plan completed external = .ok layers) :
    layers.flatten.Nodup := by
  rcases layers.eq_nil_or_concat with rfl | ⟨L, l, rfl⟩
  · exact List.nodup_nil
  · rw [List.concat_eq_append] at h ⊢
    simpa using nodup_of_topologicalSort h rfl

/-- **An unfinished in-plan dependency lies in an earlier layer.** -/
theorem dep_of_topologicalSort (h : topologicalSort plan completed external = .ok layers)
    {L₁ L₂ : List (List String)} {l : List String} (hl : layers = L₁ ++ l :: L₂)
    {s : DagStep} (hs : s ∈ plan.steps) (hsid : s.id ∈ l) {d : String} (hd : d ∈ s.dependsOn)
    (hin : d ∈ stepIds plan.steps) (hc : d ∉ completed) : d ∈ L₁.flatten := by
  obtain ⟨fuel, queue, rfl, hinv⟩ := topologicalSort_eq h
  exact Lib.Kahn.layers_edge_lt (schedulingGraph plan.steps completed) hinv hl hsid
    (mem_schedulingEdges.mpr ⟨⟨s, hs, rfl, hd⟩, hin, hc⟩)

/-- An unfinished in-plan dependency of a step up to a layer lies before that layer. -/
theorem dep_mem_earlier (h : topologicalSort plan completed external = .ok layers)
    {L₁ L₂ : List (List String)} {l : List String} (hl : layers = L₁ ++ l :: L₂)
    {s : DagStep} (hs : s ∈ plan.steps) (hsid : s.id ∈ L₁.flatten ∨ s.id ∈ l) {d : String}
    (hd : d ∈ s.dependsOn) (hin : d ∈ stepIds plan.steps) (hc : d ∉ completed) : d ∈ L₁.flatten := by
  rcases hsid with hsid | hsid
  · obtain ⟨l', hl', hsid'⟩ := List.mem_flatten.mp hsid
    obtain ⟨A, B, rfl⟩ := List.append_of_mem hl'
    have hsplit : layers = A ++ l' :: (B ++ l :: L₂) := by simp [hl]
    have hA := dep_of_topologicalSort h hsplit hs hsid' hd hin hc
    rw [List.flatten_append]
    exact List.mem_append_left _ hA
  · exact dep_of_topologicalSort h hl hs hsid hd hin hc

/-- A dependency of a step up to a layer does not lie in that layer. -/
theorem dep_not_mem_layer (h : topologicalSort plan completed external = .ok layers)
    {L₁ L₂ : List (List String)} {l : List String} (hl : layers = L₁ ++ l :: L₂)
    {s : DagStep} (hs : s ∈ plan.steps) (hsid : s.id ∈ L₁.flatten ∨ s.id ∈ l) {d : String}
    (hd : d ∈ s.dependsOn) : d ∉ l := by
  intro hdl
  have hlmem : l ∈ layers := by
    rw [hl]
    exact List.mem_append_right _ List.mem_cons_self
  obtain ⟨hin, hc⟩ := mem_of_topologicalSort h hlmem hdl
  have hearlier := dep_mem_earlier h hl hs hsid hd hin hc
  have hn := nodup_of_topologicalSort h hl
  exact (List.nodup_append.mp hn).2.2 d hearlier d hdl rfl

end layering

/-! ### What an accepted structure guarantees -/

theorem uniqueIds_spec : ∀ (i : ℕ) (steps : List DagStep) (seen : List String),
    seen.Nodup → (uniqueIds i steps seen).1 = [] →
      (uniqueIds i steps seen).2 = seen ++ stepIds steps ∧ (seen ++ stepIds steps).Nodup ∧
      ∀ s ∈ steps, s.id ≠ ""
  | i, [], seen, hn, _ => by simpa [uniqueIds, stepIds] using hn
  | i, step :: rest, seen, hn, h => by
      by_cases h1 : step.id = ""
      · simp [uniqueIds, h1] at h
      by_cases h2 : step.id ∈ seen
      · simp [uniqueIds, h1, h2] at h
      · have hs : uniqueIds i (step :: rest) seen = uniqueIds (i + 1) rest (seen ++ [step.id]) := by
          simp [uniqueIds, h1, h2]
        rw [hs] at h ⊢
        have hn' : (seen ++ [step.id]).Nodup := by
          rw [List.nodup_append]
          refine ⟨hn, by simp, ?_⟩
          rintro a ha b hb rfl
          rw [List.mem_singleton] at hb
          subst hb
          exact h2 ha
        obtain ⟨e1, e2, e3⟩ := uniqueIds_spec (i + 1) rest (seen ++ [step.id]) hn' h
        refine ⟨by rw [e1]; simp [stepIds], by simpa [stepIds] using e2, ?_⟩
        intro s hs
        rcases List.mem_cons.mp hs with rfl | hs
        · exact h1
        · exact e3 s hs

/-- Distinct, non-empty ids pass the first check. -/
theorem uniqueIds_of_nodup : ∀ (i : ℕ) (steps : List DagStep) (seen : List String),
    (∀ s ∈ steps, s.id ≠ "") → (seen ++ stepIds steps).Nodup →
    uniqueIds i steps seen = ([], seen ++ stepIds steps)
  | _, [], seen, _, _ => by simp [uniqueIds, stepIds]
  | i, step :: rest, seen, hne, hn => by
      have hcons : stepIds (step :: rest) = step.id :: stepIds rest := rfl
      rw [hcons] at hn ⊢
      have hnew : step.id ∉ seen := fun hin =>
        (List.nodup_cons.mp (List.nodup_middle.mp hn)).1 (List.mem_append_left _ hin)
      have ih := uniqueIds_of_nodup (i + 1) rest (seen ++ [step.id])
        (fun s hs => hne s (List.mem_cons_of_mem _ hs)) (by simpa using hn)
      rw [uniqueIds, if_neg (hne step List.mem_cons_self), if_neg (by simpa using hnew), ih]
      simp

theorem dependencyErrors_eq_nil_iff {ids external : List String} {s : DagStep} (hid : s.id ≠ "") :
    dependencyErrors ids external s = [] ↔
      ∀ d ∈ s.dependsOn, d ≠ s.id ∧ (d ∈ ids ∨ d ∈ external) := by
  unfold dependencyErrors
  rw [if_neg hid, List.filterMap_eq_nil_iff]
  refine forall₂_congr fun d _ => ?_
  by_cases h1 : d = s.id
  · simp [h1]
  · by_cases h2 : d ∈ ids <;> by_cases h3 : d ∈ external <;> simp [h1, h2, h3]

section structure_
variable [Py] {plan : DagPlan} {completed available : List String}

/-- An accepted plan passed every check of the structure validation. -/
theorem validateDagStructure_eq_nil (h : validateDagStructure plan completed available = [])
    (hne : plan.steps ≠ []) :
    (uniqueIds 0 plan.steps []).1 = [] ∧
    (∀ s ∈ plan.steps, dependencyErrors (stepIds plan.steps) (completed ++ available) s = []) ∧
    findCycle plan.steps (stepIds plan.steps) = [] ∧
    hierarchyErrors plan.steps (stepIds plan.steps) = [] := by
  unfold validateDagStructure at h
  rw [if_neg (by simpa using hne)] at h
  simp only at h
  split_ifs at h with h1 h2
  · rw [List.isEmpty_iff, List.append_eq_nil_iff] at h1
    have hids := (uniqueIds_spec 0 plan.steps [] List.nodup_nil h1.1).1
    rw [List.nil_append] at hids
    rw [hids] at h1 h2 h
    refine ⟨h1.1, fun s hs => ?_, by simpa using h2, h⟩
    exact (List.flatMap_eq_nil_iff.mp h1.2) s hs
  · simp [h] at h1

/-- The checks of the structure validation suffice. -/
theorem validateDagStructure_of (hne : ∀ s ∈ plan.steps, s.id ≠ "") (hn : (stepIds plan.steps).Nodup)
    (hdeps : ∀ s ∈ plan.steps, ∀ d ∈ s.dependsOn,
      d ≠ s.id ∧ (d ∈ stepIds plan.steps ∨ d ∈ completed ++ available))
    (hcycle : findCycle plan.steps (stepIds plan.steps) = [])
    (hlevel : hierarchyErrors plan.steps (stepIds plan.steps) = []) :
    validateDagStructure plan completed available = [] := by
  have hids := uniqueIds_of_nodup 0 plan.steps [] hne (by simpa using hn)
  rw [List.nil_append] at hids
  have herr : plan.steps.flatMap (dependencyErrors (stepIds plan.steps) (completed ++ available)) = [] := by
    rw [List.flatMap_eq_nil_iff]
    exact fun s hs => (dependencyErrors_eq_nil_iff (hne s hs)).mpr (hdeps s hs)
  unfold validateDagStructure
  simp [hids, herr, hcycle, hlevel]

/-- **Step ids of an accepted plan are distinct.** -/
theorem nodup_stepIds_of_valid (h : validateDagStructure plan completed available = []) :
    (stepIds plan.steps).Nodup := by
  by_cases hne : plan.steps = []
  · simp [hne, stepIds]
  · obtain ⟨h1, _⟩ := validateDagStructure_eq_nil h hne
    simpa using (uniqueIds_spec 0 plan.steps [] List.nodup_nil h1).2.1

/-- **Dependencies of an accepted plan are steps of the plan or external.** -/
theorem dep_of_valid (h : validateDagStructure plan completed available = []) {s : DagStep}
    (hs : s ∈ plan.steps) {d : String} (hd : d ∈ s.dependsOn) :
    d ≠ s.id ∧ (d ∈ stepIds plan.steps ∨ d ∈ completed ∨ d ∈ available) := by
  have hne : plan.steps ≠ [] := List.ne_nil_of_mem hs
  obtain ⟨h1, h2, _⟩ := validateDagStructure_eq_nil h hne
  have hid := (uniqueIds_spec 0 plan.steps [] List.nodup_nil h1).2.2 s hs
  have := (dependencyErrors_eq_nil_iff hid).mp (h2 s hs) d hd
  simpa only [List.mem_append] using this

end structure_

end JAgent
