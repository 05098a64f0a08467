import JAgent.Models.Plan
import JAgent.Lib.Layering

/-! # The layering of a plan is correct and complete

`topological_sort` in both directions.  What it returns lists the uncompleted steps of the plan,
each once, every step after the uncompleted steps it depends on and as early as that allows
(`IsLayering`); and it raises exactly when a dependency is unknown, two steps share an id or the
uncompleted steps wait for each other in a circle (`topologicalSort_ok_iff`).

The single test at its end, that as many steps were visited as the plan has, stands for the last two:
the visited steps are at most the distinct ids, and these are as many as the steps only when no id
occurs twice. -/

namespace JAgent

/-- `x` waits for `d`: a step that is not completed depends on a step of the plan that is not
completed either. -/
def WaitsFor (plan : DagPlan) (completed : List String) (x d : String) : Prop :=
  x ∉ completed ∧ d ∈ stepIds plan.steps ∧ d ∉ completed ∧
    ∃ s ∈ plan.steps, s.id = x ∧ d ∈ s.dependsOn

/-- The uncompleted steps wait for each other in a circle. -/
def HasCycle (plan : DagPlan) (completed : List String) : Prop :=
  ∃ x, Relation.TransGen (WaitsFor plan completed) x x

/-- What a layering of the uncompleted steps has to be. -/
structure IsLayering (plan : DagPlan) (completed : List String) (layers : List (List String)) : Prop where
  nonempty : ∀ l ∈ layers, l ≠ []
  nodup : layers.flatten.Nodup
  mem_iff : ∀ sid, sid ∈ layers.flatten ↔ sid ∈ stepIds plan.steps ∧ sid ∉ completed
  /-- What a step waits for lies in an earlier layer. -/
  earlier : ∀ (i : ℕ) l, layers[i]? = some l → ∀ x ∈ l, ∀ d, WaitsFor plan completed x d →
    ∃ (j : ℕ) (m : List String), j < i ∧ layers[j]? = some m ∧ d ∈ m
  /-- No ranking of the steps that does so ranks a step below its layer. -/
  earliest : ∀ rank : String → ℕ, (∀ x d, WaitsFor plan completed x d → rank d < rank x) →
    ∀ (i : ℕ) l, layers[i]? = some l → ∀ x ∈ l, i ≤ rank x

section sorting
variable {plan : DagPlan} {completed external : List String}

theorem waitsFor_iff {x d : String} : WaitsFor plan completed x d ↔
    completed.contains x = false ∧ (x, d) ∈ schedulingEdges plan.steps completed := by
  rw [mem_schedulingEdges]
  simp only [WaitsFor, List.contains_eq_mem, decide_eq_false_iff_not]
  tauto

/-- The distinct ids are at most as many as the steps, and as many only without repetition. -/
theorem length_keys_stepMap : (stepMap plan.steps).keys.length ≤ plan.steps.length ∧
    ((stepMap plan.steps).keys.length = plan.steps.length ↔ (stepIds plan.steps).Nodup) := by
  have hsub : (stepMap plan.steps).keys ⊆ stepIds plan.steps := fun sid h => mem_keys_stepMap.mp h
  have hperm := (stepMap plan.steps).nodup.subperm hsub
  have hlen : (stepIds plan.steps).length = plan.steps.length := by simp [stepIds]
  refine ⟨by rw [← hlen]; exact hperm.length_le, fun h => ?_, fun h => ?_⟩
  · rw [← hlen] at h
    exact (hperm.perm_of_length_le h.ge).nodup_iff.mp (stepMap plan.steps).nodup
  · rw [← hlen]
    have hback : stepIds plan.steps ⊆ (stepMap plan.steps).keys := fun sid h => mem_keys_stepMap.mpr h
    exact le_antisymm hperm.length_le (h.subperm hback).length_le

/-- The layers `topological_sort` computes, before it counts them. -/
def sortLayers (plan : DagPlan) (completed : List String) : List (List String) :=
  let edges := schedulingEdges plan.steps completed
  let deg := inDegrees plan.steps edges
  Lib.Kahn.layers (fun d => (successors plan.steps edges).getD d []) (completed.contains ·)
    ((stepMap plan.steps).keys.length + 1)
    (deg.keys.filter fun sid => deg.getD sid 0 = 0 ∧ completed.contains sid = false) deg

theorem sortLayers_start (plan : DagPlan) (completed : List String) :
    Lib.Kahn.Inv (completed.contains ·)
      (inDegrees plan.steps (schedulingEdges plan.steps completed)).keys
      (schedulingEdges plan.steps completed) []
      ⟨inDegrees plan.steps (schedulingEdges plan.steps completed),
        (inDegrees plan.steps (schedulingEdges plan.steps completed)).keys.filter fun sid =>
          (inDegrees plan.steps (schedulingEdges plan.steps completed)).getD sid 0 = 0 ∧
            completed.contains sid = false⟩ := by
  refine Lib.Kahn.Inv.start (Lib.Dict.nodup _) fun x => ?_
  unfold inDegrees
  rw [Lib.Dict.getD_foldl_count, getD_ofPairs_const, zero_add]

/-- The ids of the in-degree table are those of the plan. -/
theorem length_keys_inDegrees : (inDegrees plan.steps (schedulingEdges plan.steps completed)).keys.length =
    (stepMap plan.steps).keys.length := by
  have hperm : (inDegrees plan.steps (schedulingEdges plan.steps completed)).keys.Perm
      (stepMap plan.steps).keys := by
    apply (List.perm_ext_iff_of_nodup (Lib.Dict.nodup _) (Lib.Dict.nodup _)).mpr
    intro sid
    exact mem_keys_inDegrees.trans mem_keys_stepMap.symm
  exact hperm.length_eq

/-- The rounds end with an empty queue: an uncompleted step that was not listed waits for a cycle. -/
theorem mem_sortLayers_of_not_hasCycle (hc : ¬HasCycle plan completed) {sid : String}
    (hsid : sid ∈ stepIds plan.steps) (hnot : sid ∉ completed) :
    sid ∈ (sortLayers plan completed).flatten := by
  by_contra hmem
  have hG := schedulingGraph plan.steps completed
  obtain ⟨deg', hinv⟩ := Lib.Kahn.Inv.exhaust hG ((stepMap plan.steps).keys.length + 1) _ [] _
    (sortLayers_start plan completed) (by rw [length_keys_inDegrees, List.length_nil]; omega)
  have hE : ∀ e ∈ schedulingEdges plan.steps completed,
      e.2 ∈ (inDegrees plan.steps (schedulingEdges plan.steps completed)).keys ∧
        completed.contains e.2 = false := by
    rintro ⟨x, d⟩ he
    obtain ⟨-, hids, hd⟩ := mem_schedulingEdges.mp he
    exact ⟨mem_keys_inDegrees.mpr hids, by simpa using hd⟩
  obtain ⟨y, hy⟩ := hinv.cycle_of_not_listed hE (mem_keys_inDegrees.mpr hsid) (by simpa using hnot) hmem
  exact hc ⟨y, Relation.TransGen.mono (fun a b hab => waitsFor_iff.mpr hab) y y hy⟩

/-- Every dependency names a step of the plan, a completed step or an external one. -/
def DependenciesKnown (plan : DagPlan) (completed external : List String) : Prop :=
  ∀ s ∈ plan.steps, ∀ d ∈ s.dependsOn, d ∈ stepIds plan.steps ∨ d ∈ completed ∨ d ∈ external

theorem find_unknown_eq_none :
    ((dependencyPairs plan.steps).find? fun e => !((stepMap plan.steps).keys.contains e.2 ||
        completed.contains e.2 || external.contains e.2)) = none ↔
      DependenciesKnown plan completed external := by
  rw [List.find?_eq_none]
  unfold DependenciesKnown dependencyPairs
  simp only [List.mem_flatMap, List.mem_map, Bool.not_eq_true', Bool.not_eq_false, Bool.or_eq_true,
    List.contains_eq_mem, decide_eq_true_eq, mem_keys_stepMap, or_assoc]
  constructor
  · intro h s hs d hd
    exact h (s.id, d) ⟨s, hs, d, hd, rfl⟩
  · rintro h ⟨x, d⟩ ⟨s, hs, d', hd, he⟩
    cases he
    exact h s hs d hd

/-- `topological_sort` checks the dependencies, lays the steps out and counts them. -/
theorem topologicalSort_ok_iff_layers {layers : List (List String)} :
    topologicalSort plan completed external = .ok layers ↔
      DependenciesKnown plan completed external ∧ layers = sortLayers plan completed ∧
      ((stepMap plan.steps).keys.filter (completed.contains ·)).length +
        (sortLayers plan completed).flatten.length = plan.steps.length := by
  rw [← find_unknown_eq_none]
  unfold topologicalSort
  simp only
  cases hf : (dependencyPairs plan.steps).find? fun e => !((stepMap plan.steps).keys.contains e.2 ||
      completed.contains e.2 || external.contains e.2) with
  | some e => simp
  | none =>
      show (if ((stepMap plan.steps).keys.filter (completed.contains ·)).length +
        (sortLayers plan completed).flatten.length = plan.steps.length
          then Except.ok (sortLayers plan completed) else .error SortError.cycle) = .ok layers ↔ _
      split_ifs with hv
      · constructor
        · intro h
          cases h
          exact ⟨rfl, rfl, hv⟩
        · rintro ⟨-, rfl, -⟩
          rfl
      · constructor
        · intro h
          cases h
        · rintro ⟨-, -, h⟩
          exact absurd h hv

/-- What was listed is an uncompleted id, each once. -/
theorem sortLayers_flatten (plan : DagPlan) (completed : List String) :
    (sortLayers plan completed).flatten.Nodup ∧
      ∀ sid ∈ (sortLayers plan completed).flatten, sid ∈ stepIds plan.steps ∧ sid ∉ completed := by
  have hG := schedulingGraph plan.steps completed
  have hstart := sortLayers_start plan completed
  constructor
  · rcases hL : (sortLayers plan completed).eq_nil_or_concat with h | ⟨L, l, h⟩
    · rw [h]
      exact List.nodup_nil
    · rw [List.concat_eq_append] at h
      have hn := Lib.Kahn.layers_nodup hG hstart h
      rw [h]
      simpa using hn
  · intro sid hsid
    obtain ⟨l, hl, hmem⟩ := List.mem_flatten.mp hsid
    obtain ⟨h1, h2⟩ := Lib.Kahn.mem_layers hG hstart hl hmem
    exact ⟨mem_keys_inDegrees.mp h1, by simpa using h2⟩

/-- **The count at the end**: as many steps as the plan has are visited exactly when no id is shared and
every uncompleted step was listed. -/
theorem visited_iff :
    ((stepMap plan.steps).keys.filter (completed.contains ·)).length +
        (sortLayers plan completed).flatten.length = plan.steps.length ↔
      (stepIds plan.steps).Nodup ∧
        ∀ sid ∈ stepIds plan.steps, sid ∉ completed → sid ∈ (sortLayers plan completed).flatten := by
  obtain ⟨hnodup, hmem⟩ := sortLayers_flatten plan completed
  obtain ⟨hle, hiff⟩ := @length_keys_stepMap plan
  have hpending : ∀ sid, sid ∈ (stepMap plan.steps).keys.filter (fun sid => !completed.contains sid) ↔
      sid ∈ stepIds plan.steps ∧ sid ∉ completed := by
    intro sid
    simp [List.mem_filter, mem_keys_stepMap]
  have hids : (stepMap plan.steps).keys.Nodup := (stepMap plan.steps).nodup
  have hsplit : ((stepMap plan.steps).keys.filter (completed.contains ·)).length +
      ((stepMap plan.steps).keys.filter (fun sid => !completed.contains sid)).length =
        (stepMap plan.steps).keys.length :=
    List.length_eq_length_filter_add _ |>.symm
  have hsub : (sortLayers plan completed).flatten ⊆
      (stepMap plan.steps).keys.filter (fun sid => !completed.contains sid) :=
    fun sid hsid => (hpending sid).mpr (hmem sid hsid)
  have hperm := hnodup.subperm hsub
  have hlen := hperm.length_le
  constructor
  · intro h
    refine ⟨hiff.mp (by omega), fun sid hsid hnot => ?_⟩
    have hback := hperm.perm_of_length_le (by omega)
    exact hback.mem_iff.mpr ((hpending sid).mpr ⟨hsid, hnot⟩)
  · rintro ⟨hn, hall⟩
    have hback : (stepMap plan.steps).keys.filter (fun sid => !completed.contains sid) ⊆
        (sortLayers plan completed).flatten := by
      intro sid hsid
      obtain ⟨h1, h2⟩ := (hpending sid).mp hsid
      exact hall sid h1 h2
    have hge := ((hids.filter _).subperm hback).length_le
    have heq := hiff.mpr hn
    omega

theorem split_of_getElem? {α : Type} {L : List α} {i : ℕ} {l : α} (h : L[i]? = some l) :
    ∃ L₁ L₂, L = L₁ ++ l :: L₂ ∧ L₁.length = i := by
  obtain ⟨hi, rfl⟩ := List.getElem?_eq_some_iff.mp h
  refine ⟨L.take i, L.drop (i + 1), ?_, List.length_take_of_le hi.le⟩
  rw [← List.drop_eq_getElem_cons hi, List.take_append_drop]

/-- The layers as a layering of the uncompleted steps, when all of them were listed. -/
theorem isLayering_sortLayers
    (hall : ∀ sid ∈ stepIds plan.steps, sid ∉ completed → sid ∈ (sortLayers plan completed).flatten) :
    IsLayering plan completed (sortLayers plan completed) := by
  have hG := schedulingGraph plan.steps completed
  have hstart := sortLayers_start plan completed
  obtain ⟨hnodup, hmem⟩ := sortLayers_flatten plan completed
  refine ⟨Lib.Kahn.layers_ne_nil hG _ _ _ _ hstart, hnodup, fun sid => ⟨hmem sid, fun h => hall sid h.1 h.2⟩,
    ?_, ?_⟩
  · intro i l hi x hx d hd
    obtain ⟨L₁, L₂, hL, rfl⟩ := split_of_getElem? hi
    have hbefore := Lib.Kahn.layers_edge_lt hG hstart hL hx (waitsFor_iff.mp hd).2
    obtain ⟨m, hm, hdm⟩ := List.mem_flatten.mp hbefore
    obtain ⟨j, hj, rfl⟩ := List.getElem_of_mem hm
    refine ⟨j, L₁[j], hj, ?_, hdm⟩
    rw [hL, List.getElem?_append_left hj, List.getElem?_eq_getElem hj]
  · intro rank hrank i l hi x hx
    obtain ⟨L₁, L₂, hL, rfl⟩ := split_of_getElem? hi
    refine Lib.Kahn.layer_le_rank hG hstart ?_ L₁ l L₂ hL x hx
    intro y d hy hd
    exact hrank y d (waitsFor_iff.mpr ⟨hy, hd⟩)

/-- What a step waits for, directly or not, lies in an earlier layer. -/
theorem IsLayering.earlier_of_transGen {layers : List (List String)} (h : IsLayering plan completed layers)
    {x y : String} (hxy : Relation.TransGen (WaitsFor plan completed) x y) :
    ∀ (i : ℕ) l, layers[i]? = some l → x ∈ l →
      ∃ (j : ℕ) (m : List String), j < i ∧ layers[j]? = some m ∧ y ∈ m := by
  induction hxy with
  | single hxy =>
      intro i l hi hx
      exact h.earlier i l hi x hx _ hxy
  | tail _ hyz ih =>
      intro i l hi hx
      obtain ⟨j, m, hj, hm, hy⟩ := ih i l hi hx
      obtain ⟨k, n, hk, hn, hz⟩ := h.earlier j m hm _ hy _ hyz
      exact ⟨k, n, by omega, hn, hz⟩

/-- A layering leaves no cycle. -/
theorem IsLayering.not_hasCycle {layers : List (List String)} (h : IsLayering plan completed layers) :
    ¬HasCycle plan completed := by
  rintro ⟨x, hx⟩
  have hno : ∀ (i : ℕ) l, layers[i]? = some l → x ∉ l := by
    intro i
    induction i using Nat.strong_induction_on with
    | _ i ih =>
        intro l hi hmem
        obtain ⟨j, m, hj, hm, hxm⟩ := h.earlier_of_transGen hx i l hi hmem
        exact ih j hj m hm hxm
  have hstep : ∃ d, WaitsFor plan completed x d := by
    obtain ⟨d, hd, -⟩ := Relation.TransGen.head'_iff.mp hx
    exact ⟨d, hd⟩
  obtain ⟨d, hnot, -, -, s, hs, rfl, -⟩ := hstep
  have hlisted := (h.mem_iff s.id).mpr ⟨List.mem_map_of_mem hs, hnot⟩
  obtain ⟨l, hl, hmem⟩ := List.mem_flatten.mp hlisted
  obtain ⟨i, hi, rfl⟩ := List.getElem_of_mem hl
  exact hno i _ (List.getElem?_eq_getElem hi) hmem

/-- **When `topological_sort` returns.** -/
theorem topologicalSort_ok_iff :
    (∃ layers, topologicalSort plan completed external = .ok layers) ↔
      DependenciesKnown plan completed external ∧ (stepIds plan.steps).Nodup ∧
        ¬HasCycle plan completed := by
  constructor
  · rintro ⟨layers, h⟩
    obtain ⟨hknown, -, hv⟩ := topologicalSort_ok_iff_layers.mp h
    obtain ⟨hn, hall⟩ := visited_iff.mp hv
    exact ⟨hknown, hn, (isLayering_sortLayers hall).not_hasCycle⟩
  · rintro ⟨hknown, hn, hc⟩
    have hv := visited_iff.mpr ⟨hn, fun sid => mem_sortLayers_of_not_hasCycle hc⟩
    exact ⟨_, topologicalSort_ok_iff_layers.mpr ⟨hknown, rfl, hv⟩⟩

/-- **Layering is correct**: `topological_sort` returns a layering of the uncompleted steps or raises, and
it raises exactly when a dependency is unknown, two steps share an id or the uncompleted steps wait for
each other in a circle. -/
theorem topologicalSort_correct (plan : DagPlan) (completed external : List String) :
    (∀ layers, topologicalSort plan completed external = .ok layers → IsLayering plan completed layers) ∧
      ((∃ e, topologicalSort plan completed external = .error e) ↔
        (∃ s ∈ plan.steps, ∃ d ∈ s.dependsOn,
          d ∉ stepIds plan.steps ∧ d ∉ completed ∧ d ∉ external) ∨
        ¬(stepIds plan.steps).Nodup ∨ HasCycle plan completed) := by
  constructor
  · intro layers h
    obtain ⟨-, rfl, hv⟩ := topologicalSort_ok_iff_layers.mp h
    exact isLayering_sortLayers (visited_iff.mp hv).2
  · have hraise : (∃ e, topologicalSort plan completed external = .error e) ↔
        ¬∃ layers, topologicalSort plan completed external = .ok layers := by
      cases topologicalSort plan completed external <;> simp
    rw [hraise, topologicalSort_ok_iff]
    unfold DependenciesKnown
    push Not
    constructor
    · intro h
      by_cases hknown : ∀ s ∈ plan.steps, ∀ d ∈ s.dependsOn,
          d ∈ stepIds plan.steps ∨ d ∈ completed ∨ d ∈ external
      · by_cases hn : (stepIds plan.steps).Nodup
        · exact Or.inr (Or.inr (h hknown hn))
        · exact Or.inr (Or.inl hn)
      · push Not at hknown
        exact Or.inl hknown
    · rintro (⟨s, hs, d, hd, h1, h2, h3⟩ | hn | hc) hknown hnodup
      · rcases hknown s hs d hd with h | h | h
        · exact absurd h h1
        · exact absurd h h2
        · exact absurd h h3
      · exact absurd hnodup hn
      · exact hc

end sorting

/-- A completed step in the middle neither is listed nor holds anything back. -/
example : topologicalSort
    { steps := [{ id := "s1", tool := "file_op" }, { id := "s2", tool := "file_op", dependsOn := ["s1"] },
        { id := "s3", tool := "file_op", dependsOn := ["s2"] }] } ["s2"] [] =
      .ok [["s1", "s3"]] := by decide

end JAgent
