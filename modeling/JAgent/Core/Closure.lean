import JAgent.Core.RevisionGuard
import JAgent.Lib.Worklist
import Mathlib.Algebra.Order.BigOperators.Group.List

/-! # Degenerate revisions

A revised step is degenerate when it repeats an action that has failed and nothing upstream of it is
new to the plan.  The guard walks the dependencies of the step with a work list; the revision it walks
has not been validated, so that it may have cycles and name steps it does not list.

`Upstream` is what the work list is for: reachability along the dependencies inside the revision.  The
loop of the guard is the search of `Lib.Worklist` with the dependencies pushed from the last to the
first (`closure_search`), so that it ends and collects exactly the steps upstream
(`mem_dependencyClosure`). -/

namespace JAgent

/-- The transitive dependencies of a step inside a plan, the step included. -/
inductive Upstream (steps : List DagStep) (sid : String) : String → Prop
  | self : Upstream steps sid sid
  | dep {step : DagStep} {d : String} : Upstream steps sid step.id → step ∈ steps → d ∈ step.dependsOn →
      d ∈ stepIds steps → Upstream steps sid d

section upstream
variable {steps steps' : List DagStep} {sid cur : String}

theorem Upstream.mono (hsub : steps ⊆ steps') (h : Upstream steps sid cur) :
    Upstream steps' sid cur := by
  induction h with
  | self => exact .self
  | dep _ hmem hd hin ih =>
      obtain ⟨q, hq, he⟩ := List.mem_map.mp hin
      exact .dep ih (hsub hmem) hd (List.mem_map.mpr ⟨q, hsub hq, he⟩)

/-- A step without dependencies has nothing upstream. -/
theorem Upstream.eq_of_isolated (hiso : ∀ step ∈ steps, step.id = sid → step.dependsOn = [])
    (h : Upstream steps sid cur) : cur = sid := by
  induction h with
  | self => rfl
  | dep _ hmem hd _ ih =>
      rw [hiso _ hmem ih] at hd
      cases hd

theorem get?_stepMap_mem {step : DagStep} (h : (stepMap steps).get? cur = some step) :
    step ∈ steps ∧ step.id = cur := by
  obtain ⟨q, hq, he⟩ := List.mem_map.mp (Lib.Dict.mem_of_get?_ofPairs h)
  cases he
  exact ⟨hq, rfl⟩

/-! ### The work list of the guard -/

/-- What `_closure` pushes when it pops a step, top of the stack first. -/
def closureSucc (smap : Lib.Dict String DagStep) (cur : String) : List String :=
  match smap.get? cur with
  | some step => (step.dependsOn.filter fun d => (smap.get? d).isSome).reverse
  | none => []

theorem closureSucc_of_get? {smap : Lib.Dict String DagStep} {step : DagStep}
    (h : smap.get? cur = some step) : closureSucc smap cur =
      (step.dependsOn.filter fun d => (smap.get? d).isSome).reverse := by
  unfold closureSucc
  rw [h]

/-- What is pushed: the dependencies that the plan lists. -/
theorem mem_closureSucc {x : String} : x ∈ closureSucc (stepMap steps) cur ↔
    ∃ step, (stepMap steps).get? cur = some step ∧ x ∈ step.dependsOn ∧ x ∈ stepIds steps := by
  have hkey : ((stepMap steps).get? x).isSome = true ↔ x ∈ stepIds steps := by
    rw [Option.isSome_iff_exists, ← mem_keys_stepMap]
    exact Lib.Dict.mem_keys_iff.symm
  cases h : (stepMap steps).get? cur with
  | none => simp [closureSucc, h]
  | some step =>
      rw [closureSucc_of_get? h, List.mem_reverse, List.mem_filter, hkey]
      simp

/-- The loop of the guard is the search along the dependencies. -/
theorem closureLoop_of_search {smap : Lib.Dict String DagStep} : ∀ (fuel : ℕ) (stack seen out : List String),
    Lib.Worklist.search (closureSucc smap) fuel stack seen = some out →
      closureLoop smap fuel stack seen = out := by
  intro fuel
  induction fuel with
  | zero =>
      intro stack seen out h
      simp [Lib.Worklist.search] at h
  | succ fuel ih =>
      intro stack seen out h
      cases stack with
      | nil =>
          simp only [Lib.Worklist.search, Option.some.injEq] at h
          exact h
      | cons cur stack =>
          simp only [closureLoop, List.contains_eq_mem, decide_eq_true_eq]
          rw [Lib.Worklist.search] at h
          split_ifs at h ⊢
          · exact ih stack seen out h
          · split
            next step hstep =>
              rw [closureSucc_of_get? hstep] at h
              exact ih _ _ out h
            next hnone =>
              have hsucc : closureSucc smap cur = [] := by simp [closureSucc, hnone]
              rw [hsucc, List.nil_append] at h
              exact ih _ _ out h

/-- The steps of the map are among the steps of the plan, each listed once. -/
theorem values_stepMap_subperm : (stepMap steps).values.Subperm steps := by
  have hn : ((stepMap steps).values.map DagStep.id).Nodup := by
    have hkeys : (stepMap steps).keys.Nodup := (stepMap steps).nodup
    rw [← stepIds_values_stepMap] at hkeys
    exact hkeys
  exact List.subperm_of_subset hn.of_map fun s hs => mem_of_mem_values_stepMap hs

/-- The steps of the map push no more than the plan has dependencies. -/
theorem pending_closureSucc_le :
    Lib.Worklist.pending (closureSucc (stepMap steps)) (stepMap steps).keys [] ≤
      (dependencyPairs steps).length := by
  have hpushed : ∀ kv ∈ (stepMap steps).items,
      (closureSucc (stepMap steps) kv.1).length ≤ kv.2.dependsOn.length := by
    intro kv hkv
    rw [closureSucc_of_get? (Lib.Dict.mem_items_iff.mp hkv), List.length_reverse]
    exact List.length_filter_le _ _
  obtain ⟨l, hperm, hsub⟩ := @values_stepMap_subperm steps
  calc Lib.Worklist.pending (closureSucc (stepMap steps)) (stepMap steps).keys []
      = ((stepMap steps).items.map fun kv => (closureSucc (stepMap steps) kv.1).length).sum := by
        simp [Lib.Worklist.pending, Lib.Dict.keys, Function.comp_def]
    _ ≤ ((stepMap steps).items.map fun kv => kv.2.dependsOn.length).sum := List.sum_le_sum hpushed
    _ = ((stepMap steps).values.map fun s => s.dependsOn.length).sum := by
        simp [Lib.Dict.values, Function.comp_def]
    _ = (l.map fun s => s.dependsOn.length).sum := (hperm.map _).sum_eq.symm
    _ ≤ (steps.map fun s => s.dependsOn.length).sum := (hsub.map _).sum_le_sum fun _ _ => Nat.zero_le _
    _ = (dependencyPairs steps).length := by simp [dependencyPairs, List.length_flatMap]

/-- **The work list ends** with the fuel the model gives it, and the guard reads its result. -/
theorem closure_search {revised : DagPlan} (hsid : sid ∈ stepIds revised.steps) :
    Lib.Worklist.search (closureSucc (stepMap revised.steps))
      ((dependencyPairs revised.steps).length + 2) [sid] [] = some (dependencyClosure revised sid) := by
  have hpending := @pending_closureSucc_le revised.steps
  obtain ⟨out, hout⟩ := @Lib.Worklist.search_isSome _ _ (closureSucc (stepMap revised.steps))
    (stepMap revised.steps).keys
    (fun x _ y hy => by
      obtain ⟨_, _, _, hin⟩ := mem_closureSucc.mp hy
      exact mem_keys_stepMap.mpr hin)
    ((dependencyPairs revised.steps).length + 2) [sid] []
    (fun x hx => by
      rw [List.mem_singleton.mp hx]
      exact mem_keys_stepMap.mpr hsid)
    (by rw [List.length_singleton]; omega)
  rw [hout, dependencyClosure, closureLoop_of_search _ _ _ out hout]

/-- What the work list collects is upstream. -/
theorem upstream_of_mem_dependencyClosure {revised : DagPlan} (hsid : sid ∈ stepIds revised.steps)
    (h : cur ∈ dependencyClosure revised sid) : Upstream revised.steps sid cur := by
  refine Lib.Worklist.search_sound ?_ _ _ _ _ (closure_search hsid) ?_ ?_ cur h
  · intro x hx y hy
    obtain ⟨step, hstep, hd, hin⟩ := mem_closureSucc.mp hy
    obtain ⟨hmem, rfl⟩ := get?_stepMap_mem hstep
    exact .dep hx hmem hd hin
  · intro x hx
    rw [List.mem_singleton.mp hx]
    exact .self
  · intro x hx
    cases hx

/-- **The work list collects exactly the steps upstream**, in a revision with distinct ids. -/
theorem mem_dependencyClosure {revised : DagPlan} (hn : (stepIds revised.steps).Nodup)
    (hsid : sid ∈ stepIds revised.steps) :
    cur ∈ dependencyClosure revised sid ↔ Upstream revised.steps sid cur := by
  obtain ⟨hstart, hclosed⟩ := Lib.Worklist.search_closed _ _ _ _ (closure_search hsid)
    fun x hx => by cases hx
  refine ⟨upstream_of_mem_dependencyClosure hsid, fun h => ?_⟩
  induction h with
  | self => exact hstart sid (Or.inr List.mem_cons_self)
  | @dep step d _ hmem hd hin ih =>
      exact hclosed step.id ih d (mem_closureSucc.mpr ⟨step, get?_stepMap hn hmem, hd, hin⟩)

end upstream

/-! ### The guard -/

section guard
variable [Py] {plan revised : DagPlan} {results : Results}

/-- What makes a step of a revision degenerate. -/
structure Degenerate (plan : DagPlan) (results : Results) (revised : DagPlan) (rs : DagStep) : Prop where
  /-- a step of the plan with this action ran and failed -/
  repeats : ∃ p ∈ plan.steps, Results.holdsAt results ranAndFailedResult p.id = true ∧
    stepSignature p = stepSignature rs
  /-- every action upstream occurs in the plan -/
  nothingNew : ∀ m ∈ revised.steps, Upstream revised.steps rs.id m.id →
    ∃ q ∈ plan.steps, stepSignature q = stepSignature m

/-- The signatures of the steps that ran and failed. -/
theorem mem_failedSigs {sig : String × String} :
    sig ∈ (plan.steps.filter fun s => Results.holdsAt results ranAndFailedResult s.id).map stepSignature ↔
      ∃ p ∈ plan.steps, Results.holdsAt results ranAndFailedResult p.id = true ∧ stepSignature p = sig := by
  simp only [List.mem_map, List.mem_filter, and_assoc]

/-- What the guard reports. -/
theorem mem_findDegenerateRevisedSteps (hn : (stepIds revised.steps).Nodup) {sid : String} :
    sid ∈ findDegenerateRevisedSteps plan results revised ↔
      ∃ rs ∈ revised.steps, rs.id = sid ∧ Degenerate plan results revised rs := by
  unfold findDegenerateRevisedSteps
  simp only
  split_ifs with hempty
  · rw [List.isEmpty_iff] at hempty
    constructor
    · intro h
      cases h
    · rintro ⟨rs, _, _, hdeg⟩
      have hin := mem_failedSigs.mpr hdeg.repeats
      rw [hempty] at hin
      cases hin
  · rw [List.mem_map]
    constructor
    · rintro ⟨rs, hin, rfl⟩
      obtain ⟨hrs, htest⟩ := List.mem_filter.mp hin
      rw [Bool.and_eq_true, List.contains_iff_mem, List.all_eq_true] at htest
      refine ⟨rs, hrs, rfl, mem_failedSigs.mp htest.1, fun m hm hup => ?_⟩
      have hseen := htest.2 m.id ((mem_dependencyClosure hn (List.mem_map_of_mem hrs)).mpr hup)
      rw [get?_stepMap hn hm] at hseen
      exact List.mem_map.mp (List.contains_iff_mem.mp hseen)
    · rintro ⟨rs, hrs, rfl, hdeg⟩
      refine ⟨rs, List.mem_filter.mpr ⟨hrs, ?_⟩, rfl⟩
      rw [Bool.and_eq_true, List.contains_iff_mem, List.all_eq_true]
      refine ⟨mem_failedSigs.mpr hdeg.repeats, fun cid hcid => ?_⟩
      split
      next s hs =>
        obtain ⟨hmem, rfl⟩ := get?_stepMap_mem hs
        have hup := upstream_of_mem_dependencyClosure (List.mem_map_of_mem hrs) hcid
        exact List.contains_iff_mem.mpr (List.mem_map.mpr (hdeg.nothingNew s hmem hup))
      next => rfl

/-- **The guard is exact and ends**: it reports the degenerate steps of the revision and no other, in
their order, and its work list empties. -/
theorem findDegenerateRevisedSteps_exact (hn : (stepIds revised.steps).Nodup) :
    (findDegenerateRevisedSteps plan results revised).Sublist (stepIds revised.steps) ∧
    (∀ sid, sid ∈ findDegenerateRevisedSteps plan results revised ↔
      ∃ rs ∈ revised.steps, rs.id = sid ∧ Degenerate plan results revised rs) ∧
    ∀ rs ∈ revised.steps, ∃ rounds, ∀ fuel ≥ rounds,
      Lib.Worklist.search (closureSucc (stepMap revised.steps)) fuel [rs.id] [] =
        some (dependencyClosure revised rs.id) := by
  refine ⟨?_, fun sid => ?_, fun rs hrs => ?_⟩
  · unfold findDegenerateRevisedSteps
    simp only
    split_ifs
    · exact List.nil_sublist _
    · exact List.filter_sublist.map _
  · exact mem_findDegenerateRevisedSteps hn
  · refine ⟨(dependencyPairs revised.steps).length + 2, fun fuel hfuel => ?_⟩
    exact Lib.Worklist.search_mono hfuel (closure_search (List.mem_map_of_mem hrs))

end guard

attribute [local instance] asciiPy

/-- A failed fetch that is listed again, in a circle and with a dependency that is not listed. -/
theorem circular_revision_reported :
    ∃ fetch parse : DagStep, ∃ plan revised : DagPlan, ∃ results : Results,
      revised.steps = [{ fetch with dependsOn := ["parse", "gone"] }, { parse with dependsOn := ["fetch"] }] ∧
      (stepIds revised.steps).Nodup ∧
      "fetch" ∈ findDegenerateRevisedSteps plan results revised := by
  let fetch : DagStep := { id := "fetch", tool := "http_request" }
  let parse : DagStep := { id := "parse", tool := "file_op" }
  let plan : DagPlan := { steps := [fetch, parse] }
  let revised : DagPlan :=
    { steps := [{ fetch with dependsOn := ["parse", "gone"] }, { parse with dependsOn := ["fetch"] }] }
  let results : Results := Lib.Dict.empty.set "fetch" { stepId := "fetch", execState := .failed }
  have hn : (stepIds revised.steps).Nodup := by decide
  refine ⟨fetch, parse, plan, revised, results, rfl, hn, ?_⟩
  refine ((findDegenerateRevisedSteps_exact hn).2.1 "fetch").mpr ⟨_, List.mem_cons_self, rfl, ?_, ?_⟩
  · exact ⟨fetch, List.mem_cons_self, rfl, rfl⟩
  · intro m hm _
    rcases List.mem_cons.mp hm with rfl | hm
    · exact ⟨fetch, List.mem_cons_self, rfl⟩
    · rw [List.mem_singleton.mp hm]
      exact ⟨parse, List.mem_cons_of_mem _ List.mem_cons_self, rfl⟩

end JAgent
