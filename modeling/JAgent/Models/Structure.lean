import JAgent.Models.Layering

/-! # The structure check covers the sorter

Acceptance by `validate_dag_structure` against success of `topological_sort`: two graph algorithms on
two graphs, the depth-first search for a cycle over the whole plan and the layering of the plan
without its completed steps.

The search is complete because a node turns black only when everything it depends on is black:
black nodes are accessible under the dependency relation (`Search.Good`), and a node that is
accessible lies on no cycle.  The level check then runs on an acyclic plan.  Its recursion is not
guarded; `levelWithin` is the same recursion with `none` for "not done within this depth", and the
number of a step's layer bounds how deep it goes (`levelWithin_spec`). -/

namespace JAgent

/-! ### The search for a cycle -/

namespace Search
variable (adjacency : Lib.Dict String (List String)) (ids : List String)

/-- `d` is one of the dependencies the search follows from `x`. -/
def Dep (d x : String) : Prop := d ∈ adjacency.getD x []

/-- The colour of a node. -/
abbrev colourOf (st : DfsState) (x : String) : Colour := st.colour.getD x .white

/-- Black nodes are accessible: nothing they depend on leads into a cycle. -/
def Good (st : DfsState) : Prop := ∀ x, colourOf st x = .black → Acc (Dep adjacency) x

/-- The nodes that have not been visited. -/
def whites (st : DfsState) : ℕ := ids.countP fun x => colourOf st x = .white

/-- A visit leaves visited nodes as they are and no new node gray. -/
structure Extends (st st' : DfsState) : Prop where
  keeps : ∀ x, colourOf st x ≠ .white → colourOf st' x = colourOf st x
  gray : ∀ x, colourOf st' x = .gray → colourOf st x = .gray

theorem Extends.refl (st : DfsState) : Extends st st := ⟨fun _ _ => rfl, fun _ h => h⟩

theorem Extends.trans {a b c : DfsState} (h : Extends a b) (h' : Extends b c) : Extends a c := by
  refine ⟨fun x hx => ?_, fun x hx => h.gray x (h'.gray x hx)⟩
  have hb := h.keeps x hx
  rw [h'.keeps x (by rw [hb]; exact hx), hb]

theorem Extends.whites_le {st st' : DfsState} (h : Extends st st') : whites ids st' ≤ whites ids st := by
  apply List.countP_mono_left
  intro x _ hx
  simp only [decide_eq_true_eq] at hx ⊢
  by_contra hne
  rw [h.keeps x hne] at hx
  exact hne hx

theorem colourOf_set (st : DfsState) (sid x : String) (c : Colour) (stack : List String) :
    colourOf ⟨st.colour.set sid c, stack⟩ x = if sid = x then c else colourOf st x := by
  unfold colourOf Lib.Dict.getD
  rw [Lib.Dict.get?_set]
  by_cases h : sid = x <;> simp [h]

/-- Colouring a white node leaves fewer white ones. -/
theorem whites_set_lt {st : DfsState} {sid : String} (hsid : sid ∈ ids) (hw : colourOf st sid = .white)
    (stack : List String) : whites ids ⟨st.colour.set sid .gray, stack⟩ < whites ids st := by
  have hperm := List.perm_cons_erase hsid
  have hrest : (ids.erase sid).countP (fun x => colourOf ⟨st.colour.set sid .gray, stack⟩ x = .white) ≤
      (ids.erase sid).countP (fun x => colourOf st x = .white) := by
    apply List.countP_mono_left
    intro x _ hx
    simp only [decide_eq_true_eq, colourOf_set] at hx ⊢
    split_ifs at hx with h
    exact hx
  have hgray : colourOf ⟨st.colour.set sid .gray, stack⟩ sid = .gray := by
    rw [colourOf_set, if_pos rfl]
  unfold whites
  rw [hperm.countP_eq, hperm.countP_eq, List.countP_cons, List.countP_cons, hw, hgray]
  simp only [reduceCtorEq, decide_false, decide_true, if_true, Bool.false_eq_true, if_false]
  omega

/-- What a visit of a node establishes, unless it finds a cycle. -/
def Visits (visit : String → DfsState → Option (List String) × DfsState) (fuel : ℕ) : Prop :=
  ∀ sid st st', Good adjacency st → sid ∈ ids → colourOf st sid = .white → whites ids st ≤ fuel →
    visit sid st = (none, st') →
      Good adjacency st' ∧ Extends st st' ∧ colourOf st' sid = .black

variable {adjacency} {ids}

/-- The loop over the dependencies of a node leaves all of them black. -/
theorem dfsLoop_spec {visit : String → DfsState → Option (List String) × DfsState} {fuel : ℕ}
    (hvisit : Visits adjacency ids visit fuel) :
    ∀ (ns : List String) (st st' : DfsState), Good adjacency st → (∀ n ∈ ns, n ∈ ids) →
      whites ids st ≤ fuel → dfsLoop visit ns st = (none, st') →
        Good adjacency st' ∧ Extends st st' ∧ ∀ n ∈ ns, colourOf st' n = .black := by
  intro ns
  induction ns with
  | nil =>
      intro st st' hgood _ _ h
      cases h
      exact ⟨hgood, Extends.refl st, fun n hn => by simp at hn⟩
  | cons nxt rest ih =>
      intro st st' hgood hids hfuel h
      have hrest : ∀ n ∈ rest, n ∈ ids := fun n hn => hids n (List.mem_cons_of_mem nxt hn)
      have hkeep : ∀ {st₁ : DfsState}, Extends st₁ st' → colourOf st₁ nxt = .black →
          colourOf st' nxt = .black := by
        intro st₁ hext hblack
        rw [hext.keeps nxt (by rw [hblack]; simp), hblack]
      rw [dfsLoop] at h
      cases hc : st.colour.getD nxt .white with
      | gray =>
          rw [hc] at h
          cases h
      | white =>
          rw [hc] at h
          cases hv : visit nxt st with
          | mk found st₁ =>
              cases found with
              | some c => simp [hv] at h
              | none =>
                  simp only [hv] at h
                  obtain ⟨hgood₁, hext₁, hblack⟩ :=
                    hvisit nxt st st₁ hgood (hids nxt List.mem_cons_self) hc hfuel hv
                  obtain ⟨hgood', hext', hall⟩ := ih st₁ st' hgood₁ hrest
                    ((hext₁.whites_le ids).trans hfuel) h
                  refine ⟨hgood', hext₁.trans hext', fun n hn => ?_⟩
                  rcases List.mem_cons.mp hn with rfl | hn
                  · exact hkeep hext' hblack
                  · exact hall n hn
      | black =>
          rw [hc] at h
          obtain ⟨hgood', hext', hall⟩ := ih st st' hgood hrest hfuel h
          refine ⟨hgood', hext', fun n hn => ?_⟩
          rcases List.mem_cons.mp hn with rfl | hn
          · exact hkeep hext' hc
          · exact hall n hn

/-- **A visit turns its node black, and black nodes are accessible.** -/
theorem dfs_spec (hadj : ∀ x, ∀ d ∈ adjacency.getD x [], d ∈ ids) :
    ∀ fuel, Visits adjacency ids (dfs adjacency fuel) fuel := by
  intro fuel
  induction fuel with
  | zero =>
      intro sid st st' _ hsid hw hfuel _
      have hpos : 0 < whites ids st := List.countP_pos_iff.mpr ⟨sid, hsid, by simpa using hw⟩
      omega
  | succ fuel ih =>
      intro sid st st' hgood hsid hw hfuel h
      have hgood₁ : Good adjacency ⟨st.colour.set sid .gray, st.stack ++ [sid]⟩ := by
        intro x hx
        rw [colourOf_set] at hx
        split_ifs at hx with hsx
        exact hgood x hx
      have hless := whites_set_lt ids hsid hw (st.stack ++ [sid])
      rw [dfs] at h
      cases hl : dfsLoop (dfs adjacency fuel) (adjacency.getD sid [])
          ⟨st.colour.set sid .gray, st.stack ++ [sid]⟩ with
      | mk found st₂ =>
          cases found with
          | some c => simp [hl] at h
          | none =>
              simp only [hl, Prod.mk.injEq, true_and] at h
              obtain ⟨hgood₂, hext₂, hall⟩ :=
                dfsLoop_spec ih _ _ st₂ hgood₁ (hadj sid) (by omega) hl
              have hacc : Acc (Dep adjacency) sid := ⟨sid, fun d hd => hgood₂ d (hall d hd)⟩
              subst h
              refine ⟨fun x hx => ?_, ⟨fun x hx => ?_, fun x hx => ?_⟩, ?_⟩
              · rw [colourOf_set] at hx
                split_ifs at hx with hsx
                · exact hsx ▸ hacc
                · exact hgood₂ x hx
              · have hne : sid ≠ x := by
                  rintro rfl
                  exact hx hw
                have hset := colourOf_set st sid x .gray (st.stack ++ [sid])
                rw [if_neg hne] at hset
                rw [colourOf_set, if_neg hne, hext₂.keeps x (by rw [hset]; exact hx), hset]
              · rw [colourOf_set] at hx
                split_ifs at hx with hsx
                have hgray := hext₂.gray x hx
                rw [colourOf_set, if_neg hsx] at hgray
                exact hgray
              · rw [colourOf_set, if_pos rfl]

theorem dfsLoop_some_ne_nil {visit : String → DfsState → Option (List String) × DfsState}
    (hvisit : ∀ sid st st' c, visit sid st = (some c, st') → c ≠ []) :
    ∀ (ns : List String) (st st' : DfsState) (c : List String),
      dfsLoop visit ns st = (some c, st') → c ≠ [] := by
  intro ns
  induction ns with
  | nil =>
      intro st st' c h
      simp [dfsLoop] at h
  | cons nxt rest ih =>
      intro st st' c h
      rw [dfsLoop] at h
      cases hc : st.colour.getD nxt .white with
      | gray =>
          simp only [hc, Prod.mk.injEq, Option.some.injEq] at h
          rw [← h.1]
          simp
      | white =>
          cases hv : visit nxt st with
          | mk found st₁ =>
              cases found with
              | some c' =>
                  simp only [hc, hv, Prod.mk.injEq, Option.some.injEq] at h
                  rw [← h.1]
                  exact hvisit nxt st st₁ c' hv
              | none =>
                  simp only [hc, hv] at h
                  exact ih st₁ st' c h
      | black =>
          rw [hc] at h
          exact ih st st' c h

/-- A path that was found is not empty. -/
theorem dfs_some_ne_nil : ∀ (fuel : ℕ) (sid : String) (st st' : DfsState) (c : List String),
    dfs adjacency fuel sid st = (some c, st') → c ≠ [] := by
  intro fuel
  induction fuel with
  | zero =>
      intro sid st st' c h
      simp [dfs] at h
  | succ fuel ih =>
      intro sid st st' c h
      rw [dfs] at h
      cases hl : dfsLoop (dfs adjacency fuel) (adjacency.getD sid [])
          ⟨st.colour.set sid .gray, st.stack ++ [sid]⟩ with
      | mk found st₂ =>
          cases found with
          | none => simp [hl] at h
          | some c' =>
              simp only [hl, Prod.mk.injEq, Option.some.injEq] at h
              rw [← h.1]
              exact dfsLoop_some_ne_nil ih _ _ _ c' hl

/-- The outer loop finds no cycle only when every node is accessible. -/
theorem cycleLoop_spec (hadj : ∀ x, ∀ d ∈ adjacency.getD x [], d ∈ ids) {fuel : ℕ} :
    ∀ (rest : List String) (st : DfsState), Good adjacency st → (∀ x, colourOf st x ≠ .gray) →
      (∀ x ∈ rest, x ∈ ids) → whites ids st ≤ fuel → cycleLoop adjacency fuel rest st = [] →
        ∀ x ∈ rest, Acc (Dep adjacency) x := by
  intro rest
  induction rest with
  | nil =>
      intro st _ _ _ _ _ x hx
      simp at hx
  | cons sid rest ih =>
      intro st hgood hgray hids hfuel h x hx
      have hrest : ∀ x ∈ rest, x ∈ ids := fun x hx => hids x (List.mem_cons_of_mem sid hx)
      rw [cycleLoop] at h
      by_cases hw : st.colour.getD sid .white = .white
      · rw [if_pos hw] at h
        cases hd : dfs adjacency fuel sid st with
        | mk found st₁ =>
            cases found with
            | some c =>
                simp only [hd] at h
                exact absurd h (dfs_some_ne_nil fuel sid st st₁ c hd)
            | none =>
                simp only [hd] at h
                obtain ⟨hgood₁, hext, hblack⟩ :=
                  dfs_spec hadj fuel sid st st₁ hgood (hids sid List.mem_cons_self) hw hfuel hd
                rcases List.mem_cons.mp hx with rfl | hx
                · exact hgood₁ x hblack
                · exact ih st₁ hgood₁ (fun y hy => hgray y (hext.gray y hy)) hrest
                    ((hext.whites_le ids).trans hfuel) h x hx
      · rw [if_neg hw] at h
        rcases List.mem_cons.mp hx with rfl | hx
        · apply hgood
          cases hc : colourOf st x with
          | white => exact absurd hc hw
          | gray => exact absurd hc (hgray x)
          | black => rfl
        · exact ih st hgood hgray hrest hfuel h x hx

end Search

theorem not_transGen_self {α : Type} {r : α → α → Prop} {a : α} (h : Acc r a) :
    ¬Relation.TransGen r a a := by
  have hacc := h.transGen
  induction hacc with
  | intro x _ ih => exact fun hx => ih x hx (h.inv_of_transGen hx) hx

section accepted
variable {plan : DagPlan}

/-- The table the search runs on. -/
def cycleAdjacency (steps : List DagStep) (ids : List String) : Lib.Dict String (List String) :=
  .ofPairs (steps.map fun s => (s.id, s.dependsOn.filter (ids.contains ·)))

theorem mem_cycleAdjacency {steps : List DagStep} {ids : List String} {x d : String}
    (h : d ∈ (cycleAdjacency steps ids).getD x []) : d ∈ ids := by
  unfold Lib.Dict.getD at h
  cases hx : (cycleAdjacency steps ids).get? x with
  | none => simp [hx] at h
  | some ds =>
      obtain ⟨s, -, hs⟩ := List.mem_map.mp (Lib.Dict.mem_of_get?_ofPairs hx)
      cases hs
      simp only [hx, Option.getD_some, List.mem_filter] at h
      simpa using h.2

/-- With distinct ids, the search follows every in-plan dependency. -/
theorem dep_cycleAdjacency {steps : List DagStep} {ids : List String} (hn : (stepIds steps).Nodup)
    {s : DagStep} (hs : s ∈ steps) {d : String} (hd : d ∈ s.dependsOn) (hids : d ∈ ids) :
    Search.Dep (cycleAdjacency steps ids) d s.id := by
  have hnodup : ((steps.map fun s => (s.id, s.dependsOn.filter (ids.contains ·))).map Prod.fst).Nodup := by
    rw [List.map_map]
    exact hn
  have hget : (cycleAdjacency steps ids).get? s.id = some (s.dependsOn.filter (ids.contains ·)) := by
    rw [← Lib.Dict.mem_items_iff, cycleAdjacency, Lib.Dict.items_ofPairs hnodup]
    exact List.mem_map_of_mem hs
  unfold Search.Dep Lib.Dict.getD
  rw [hget, Option.getD_some, List.mem_filter]
  exact ⟨hd, by simpa using hids⟩

/-- **The search is complete**: when it finds no cycle, every id is accessible. -/
theorem acc_of_findCycle [Py] {steps : List DagStep} {ids : List String} (h : findCycle steps ids = []) :
    ∀ x ∈ ids, Acc (Search.Dep (cycleAdjacency steps ids)) x := by
  have hwhite : ∀ x, Search.colourOf
      ⟨.ofPairs ((Py.setOrder ids).map fun sid => (sid, .white)), []⟩ x = .white := fun x =>
    getD_ofPairs_const _ _ x
  have hmem : ∀ x, x ∈ Py.setOrder ids ↔ x ∈ ids := fun x => (Py.setOrder_perm ids).mem_iff
  intro x hx
  refine @Search.cycleLoop_spec _ ids (fun x d hd => mem_cycleAdjacency hd) _ (Py.setOrder ids) _
    (fun y hy => ?_) (fun y hy => ?_) (fun y hy => (hmem y).mp hy) ?_ h x ((hmem x).mpr hx)
  · rw [hwhite] at hy
    cases hy
  · rw [hwhite] at hy
    cases hy
  · exact List.countP_le_length.trans (Nat.le_succ _)

/-- A plan in which the search finds no cycle has none, whatever is completed. -/
theorem not_hasCycle_of_findCycle [Py] (hn : (stepIds plan.steps).Nodup)
    (h : findCycle plan.steps (stepIds plan.steps) = []) (completed : List String) :
    ¬HasCycle plan completed := by
  rintro ⟨x, hx⟩
  have hstep : ∀ a b, WaitsFor plan completed a b →
      Search.Dep (cycleAdjacency plan.steps (stepIds plan.steps)) b a := by
    rintro a b ⟨-, hids, -, s, hs, rfl, hd⟩
    exact dep_cycleAdjacency hn hs hd hids
  have hid : x ∈ stepIds plan.steps := by
    obtain ⟨d, ⟨-, -, -, s, hs, rfl, -⟩, -⟩ := Relation.TransGen.head'_iff.mp hx
    exact List.mem_map_of_mem hs
  refine not_transGen_self (acc_of_findCycle h x hid) ?_
  exact Relation.transGen_swap.mp (Relation.TransGen.mono hstep x x hx)

end accepted

/-! ### The level check -/

section levels
variable (smap : Lib.Dict String DagStep) (ids : List String)

/-- `levelLoop` over a recursion that may not be done. -/
def levelLoopWithin (level : String → Lib.Dict String ℕ → Option (ℕ × Lib.Dict String ℕ)) :
    List String → Lib.Dict String ℕ → Option (List ℕ × Lib.Dict String ℕ)
  | [], memo => some ([], memo)
  | d :: ds, memo => (level d memo).bind fun r =>
    (levelLoopWithin level ds r.2).map fun rs => (r.1 :: rs.1, rs.2)

/-- `_level` as the source has it, without a bound: `none` when it recurses deeper than `fuel`. -/
def levelWithin : ℕ → String → Lib.Dict String ℕ → Option (ℕ × Lib.Dict String ℕ)
  | 0, _, _ => none
  | fuel + 1, sid, memo => match memo.get? sid with
    | some n => some (n, memo)
    | none => match smap.get? sid with
      | none => some (0, memo)
      | some step =>
        (levelLoopWithin (levelWithin fuel) (step.dependsOn.filter (ids.contains ·)) memo).map fun r =>
          let lv := if r.1.isEmpty then 0 else r.1.foldr max 0 + 1
          (lv, r.2.set sid lv)

/-- The loop of `_hierarchy_errors`; `none` when a level is not found within the depth. -/
def hierarchyWithin (fuel : ℕ) : List DagStep → Lib.Dict String ℕ → Option (List PlanError)
  | [], _ => some []
  | step :: rest, memo => (levelWithin smap ids fuel step.id memo).bind fun r =>
    (hierarchyWithin fuel rest r.2).map fun errors =>
      ((step.dependsOn.filter (ids.contains ·)).filter fun dep => r.1 ≤ r.2.getD dep 0).map
          (fun dep => PlanError.hierarchy step.id dep (r.2.getD dep 0) r.1) ++ errors

theorem levelLoop_eq {within : String → Lib.Dict String ℕ → Option (ℕ × Lib.Dict String ℕ)}
    {level : String → Lib.Dict String ℕ → ℕ × Lib.Dict String ℕ}
    (h : ∀ sid memo r, within sid memo = some r → level sid memo = r) :
    ∀ (ds : List String) (memo : Lib.Dict String ℕ) (rs : List ℕ × Lib.Dict String ℕ),
      levelLoopWithin within ds memo = some rs → levelLoop level ds memo = rs := by
  intro ds
  induction ds with
  | nil =>
      intro memo rs hrs
      simpa [levelLoopWithin, levelLoop] using hrs
  | cons d ds ih =>
      intro memo rs hrs
      simp only [levelLoopWithin, Option.bind_eq_some_iff, Option.map_eq_some_iff] at hrs
      obtain ⟨r, hr, rs', hrs', rfl⟩ := hrs
      simp only [levelLoop, h d memo r hr, ih r.2 rs' hrs']

/-- Within the depth, the bounded recursion computes the same. -/
theorem level_eq : ∀ (fuel : ℕ) (sid : String) (memo : Lib.Dict String ℕ) (r : ℕ × Lib.Dict String ℕ),
    levelWithin smap ids fuel sid memo = some r → level smap ids fuel sid memo = r := by
  intro fuel
  induction fuel with
  | zero =>
      intro sid memo r h
      simp [levelWithin] at h
  | succ fuel ih =>
      intro sid memo r h
      rw [levelWithin] at h
      rw [level]
      cases hm : memo.get? sid with
      | some n => simpa [hm] using h
      | none =>
          cases hs : smap.get? sid with
          | none => simpa [hm, hs] using h
          | some step =>
              simp only [hm, hs, Option.map_eq_some_iff] at h
              obtain ⟨rs, hrs, rfl⟩ := h
              simp only [levelLoop_eq ih _ memo rs hrs]

theorem hierarchyLoop_eq {fuel : ℕ} : ∀ (steps : List DagStep) (memo : Lib.Dict String ℕ)
    (errors : List PlanError), hierarchyWithin smap ids fuel steps memo = some errors →
      hierarchyLoop smap ids fuel steps memo = errors := by
  intro steps
  induction steps with
  | nil =>
      intro memo errors h
      simpa [hierarchyWithin, hierarchyLoop] using h
  | cons step rest ih =>
      intro memo errors h
      simp only [hierarchyWithin, Option.bind_eq_some_iff, Option.map_eq_some_iff] at h
      obtain ⟨r, hr, errors', herrors, rfl⟩ := h
      simp only [hierarchyLoop, level_eq smap ids fuel step.id memo r hr, ih r.2 errors' herrors]

/-- Every recorded step lies above what it depends on, which is recorded too. -/
def Coherent (memo : Lib.Dict String ℕ) : Prop :=
  ∀ x n, memo.get? x = some n → ∀ step, smap.get? x = some step →
    ∀ d ∈ step.dependsOn.filter (ids.contains ·), ∃ m, memo.get? d = some m ∧ m < n

/-- Levels that are recorded stay, and only steps below a rank are recorded anew. -/
structure Adds (rank : String → ℕ) (bound : ℕ) (memo memo' : Lib.Dict String ℕ) : Prop where
  keeps : ∀ x n, memo.get? x = some n → memo'.get? x = some n
  new : ∀ x n, memo'.get? x = some n → memo.get? x = some n ∨ rank x < bound

theorem Adds.refl (rank : String → ℕ) (bound : ℕ) (memo : Lib.Dict String ℕ) :
    Adds rank bound memo memo := ⟨fun _ _ h => h, fun _ _ h => Or.inl h⟩

theorem Adds.trans {rank : String → ℕ} {b b' : ℕ} {m₁ m₂ m₃ : Lib.Dict String ℕ} (hb : b ≤ b')
    (h : Adds rank b m₁ m₂) (h' : Adds rank b' m₂ m₃) : Adds rank b' m₁ m₃ := by
  refine ⟨fun x n hx => h'.keeps x n (h.keeps x n hx), fun x n hx => ?_⟩
  rcases h'.new x n hx with hx | hx
  · rcases h.new x n hx with hx | hx
    · exact Or.inl hx
    · exact Or.inr (hx.trans_le hb)
  · exact Or.inr hx

theorem le_foldr_max {x : ℕ} : ∀ {l : List ℕ}, x ∈ l → x ≤ l.foldr max 0
  | [], h => by simp at h
  | y :: l, h => by
      rcases List.mem_cons.mp h with rfl | h
      · exact Nat.le_max_left _ _
      · exact (le_foldr_max h).trans (Nat.le_max_right _ _)

/-- What a level computation establishes. -/
def Levels (rank : String → ℕ) (level : String → Lib.Dict String ℕ → Option (ℕ × Lib.Dict String ℕ))
    (sid : String) : Prop :=
  ∀ memo, Coherent smap ids memo → ∃ n memo', level sid memo = some (n, memo') ∧
    Coherent smap ids memo' ∧ Adds rank (rank sid + 1) memo memo' ∧ memo'.get? sid = some n

variable {smap} {ids}

/-- The levels of a list of dependencies are all found and recorded. -/
theorem levelLoopWithin_spec {rank : String → ℕ} {bound : ℕ}
    {level : String → Lib.Dict String ℕ → Option (ℕ × Lib.Dict String ℕ)} :
    ∀ (ds : List String), (∀ d ∈ ds, Levels smap ids rank level d ∧ rank d < bound) →
      ∀ memo, Coherent smap ids memo → ∃ ns memo', levelLoopWithin level ds memo = some (ns, memo') ∧
        Coherent smap ids memo' ∧ Adds rank bound memo memo' ∧
          ∀ d ∈ ds, ∃ n ∈ ns, memo'.get? d = some n := by
  intro ds
  induction ds with
  | nil =>
      intro _ memo hmemo
      exact ⟨[], memo, rfl, hmemo, Adds.refl rank bound memo, fun d hd => by simp at hd⟩
  | cons d ds ih =>
      intro hds memo hmemo
      obtain ⟨hlevel, hbound⟩ := hds d List.mem_cons_self
      obtain ⟨n, memo₁, hn, hmemo₁, hadds₁, hget⟩ := hlevel memo hmemo
      obtain ⟨ns, memo', hns, hmemo', hadds', hall⟩ :=
        ih (fun e he => hds e (List.mem_cons_of_mem d he)) memo₁ hmemo₁
      refine ⟨n :: ns, memo', ?_, hmemo', hadds₁.trans hbound hadds', fun e he => ?_⟩
      · simp only [levelLoopWithin, hn, Option.bind_some, hns, Option.map_some]
      · rcases List.mem_cons.mp he with rfl | he
        · exact ⟨n, List.mem_cons_self, hadds'.keeps e n hget⟩
        · obtain ⟨m, hm, hgete⟩ := hall e he
          exact ⟨m, List.mem_cons_of_mem n hm, hgete⟩

/-- **The recursion is no deeper than the rank of its step**, for any ranking that puts every step above
what it depends on. -/
theorem levelWithin_spec {rank : String → ℕ} (hin : ∀ x ∈ ids, ∃ step, smap.get? x = some step)
    (hrank : ∀ x step, smap.get? x = some step →
      ∀ d ∈ step.dependsOn.filter (ids.contains ·), rank d < rank x) :
    ∀ (fuel : ℕ) (sid : String), sid ∈ ids → rank sid < fuel →
      Levels smap ids rank (levelWithin smap ids fuel) sid := by
  intro fuel
  induction fuel with
  | zero =>
      intro sid _ hlt
      omega
  | succ fuel ih =>
      intro sid hsid hlt memo hmemo
      cases hm : memo.get? sid with
      | some n =>
          exact ⟨n, memo, by simp only [levelWithin, hm], hmemo, Adds.refl rank _ memo, hm⟩
      | none =>
          obtain ⟨step, hstep⟩ := hin sid hsid
          have hdeps : ∀ d ∈ step.dependsOn.filter (ids.contains ·),
              Levels smap ids rank (levelWithin smap ids fuel) d ∧ rank d < rank sid := by
            intro d hd
            have hlow := hrank sid step hstep d hd
            have hids : d ∈ ids := by simpa using (List.mem_filter.mp hd).2
            exact ⟨ih d hids (by omega), hlow⟩
          obtain ⟨ns, memo₁, hns, hmemo₁, hadds, hall⟩ := levelLoopWithin_spec _ hdeps memo hmemo
          generalize hlv : (if ns.isEmpty then 0 else ns.foldr max 0 + 1) = lv
          have habove : ∀ n ∈ ns, n < lv := by
            intro n hn
            have hne : ns.isEmpty = false := by
              cases ns with
              | nil => simp at hn
              | cons => rfl
            rw [hne, if_neg (by simp)] at hlv
            have hle := le_foldr_max hn
            omega
          -- the recursion stays below the step, so the step itself is not recorded yet
          have hnone : memo₁.get? sid = none := by
            cases hget : memo₁.get? sid with
            | none => rfl
            | some n =>
                rcases hadds.new sid n hget with hold | hlow
                · rw [hm] at hold
                  cases hold
                · exact absurd hlow (lt_irrefl _)
          have hother : ∀ {x n}, memo₁.get? x = some n → (memo₁.set sid lv).get? x = some n := by
            intro x n hx
            have hne : sid ≠ x := by
              rintro rfl
              rw [hnone] at hx
              cases hx
            rw [Lib.Dict.get?_set, if_neg hne, hx]
          refine ⟨lv, memo₁.set sid lv, ?_, ?_, ⟨fun x n hx => ?_, fun x n hx => ?_⟩, ?_⟩
          · simp only [levelWithin, hm, hstep, hns, Option.map_some, hlv]
          · intro x n hx st hst d hd
            rcases Lib.Dict.get?_set_cases hx with ⟨rfl, rfl⟩ | ⟨-, hx⟩
            · rw [hstep] at hst
              cases hst
              obtain ⟨m, hmem, hget⟩ := hall d hd
              exact ⟨m, hother hget, habove m hmem⟩
            · obtain ⟨m, hget, hlt⟩ := hmemo₁ x n hx st hst d hd
              exact ⟨m, hother hget, hlt⟩
          · exact hother (hadds.keeps x n hx)
          · rcases Lib.Dict.get?_set_cases hx with ⟨rfl, -⟩ | ⟨-, hx⟩
            · exact Or.inr (Nat.lt_succ_self _)
            · rcases hadds.new x n hx with hold | hlow
              · exact Or.inl hold
              · exact Or.inr (hlow.trans (Nat.lt_succ_self _))
          · rw [Lib.Dict.get?_set, if_pos rfl]

/-- Steps that lie above their dependencies give no error. -/
theorem hierarchyWithin_spec (rank : String → ℕ) {fuel : ℕ}
    (hin : ∀ x ∈ ids, ∃ step, smap.get? x = some step)
    (hrank : ∀ x step, smap.get? x = some step →
      ∀ d ∈ step.dependsOn.filter (ids.contains ·), rank d < rank x) :
    ∀ (steps : List DagStep), (∀ s ∈ steps, s.id ∈ ids ∧ smap.get? s.id = some s ∧ rank s.id < fuel) →
      ∀ memo, Coherent smap ids memo → hierarchyWithin smap ids fuel steps memo = some [] := by
  intro steps
  induction steps with
  | nil =>
      intro _ memo _
      rfl
  | cons step rest ih =>
      intro hsteps memo hmemo
      obtain ⟨hids, hget, hlt⟩ := hsteps step List.mem_cons_self
      obtain ⟨n, memo', hn, hmemo', -, hself⟩ := levelWithin_spec hin hrank fuel step.id hids hlt memo hmemo
      have hrest := ih (fun s hs => hsteps s (List.mem_cons_of_mem step hs)) memo' hmemo'
      have hnone : (step.dependsOn.filter (ids.contains ·)).filter
          (fun dep => n ≤ memo'.getD dep 0) = [] := by
        rw [List.filter_eq_nil_iff]
        intro d hd
        obtain ⟨m, hm, hmn⟩ := hmemo' step.id n hself step hget d hd
        have hdep : memo'.getD d 0 = m := by
          rw [Lib.Dict.getD, hm, Option.getD_some]
        simp only [hdep, decide_eq_true_eq]
        omega
      simp only [hierarchyWithin, hn, Option.bind_some, hrest, Option.map_some, hnone, List.map_nil,
        List.nil_append]

end levels

/-! ### Both checks together -/

theorem length_le_length_flatten {α : Type} : ∀ {L : List (List α)}, (∀ l ∈ L, l ≠ []) →
    L.length ≤ L.flatten.length
  | [], _ => Nat.le_refl _
  | l :: L, h => by
      have hl := List.length_pos_of_ne_nil (h l List.mem_cons_self)
      have hL := length_le_length_flatten fun m hm => h m (List.mem_cons_of_mem l hm)
      rw [List.length_cons, List.flatten_cons, List.length_append]
      omega

/-- The number of its layer ranks every step above what it waits for. -/
theorem IsLayering.exists_rank {plan : DagPlan} {completed : List String} {layers : List (List String)}
    (h : IsLayering plan completed layers) :
    ∃ rank : String → ℕ, (∀ x d, WaitsFor plan completed x d → rank d < rank x) ∧
      ∀ x ∈ layers.flatten, rank x < layers.length := by
  have hlisted : ∀ x ∈ layers.flatten, layers.findIdx (·.contains x) < layers.length := by
    intro x hx
    obtain ⟨l, hl, hmem⟩ := List.mem_flatten.mp hx
    exact List.findIdx_lt_length_of_exists ⟨l, hl, by simpa using hmem⟩
  refine ⟨fun x => layers.findIdx (·.contains x), fun x d hxd => ?_, hlisted⟩
  have hx : x ∈ layers.flatten := by
    obtain ⟨hnot, -, -, s, hs, rfl, -⟩ := hxd
    exact (h.mem_iff s.id).mpr ⟨List.mem_map_of_mem hs, hnot⟩
  have hlt := hlisted x hx
  have hmem : x ∈ layers[layers.findIdx (·.contains x)] := by
    have hfound := List.findIdx_getElem (w := hlt)
    simpa using hfound
  obtain ⟨j, m, hj, hm, hd⟩ := h.earlier _ _ (List.getElem?_eq_getElem hlt) x hmem d hxd
  refine lt_of_le_of_lt ?_ hj
  obtain ⟨hjlt, rfl⟩ := List.getElem?_eq_some_iff.mp hm
  by_contra hgt
  have hnot := List.not_of_lt_findIdx (Nat.lt_of_not_le hgt)
  simp [hd] at hnot

section covers
variable [Py] {plan : DagPlan}

/-- **The level check finds nothing on an acyclic plan, and its recursion ends.** -/
theorem hierarchyWithin_of_findCycle (hn : (stepIds plan.steps).Nodup)
    (h : findCycle plan.steps (stepIds plan.steps) = []) {fuel : ℕ} (hfuel : plan.steps.length < fuel) :
    hierarchyWithin (stepMap plan.steps) (stepIds plan.steps) fuel plan.steps .empty = some [] := by
  have hc := not_hasCycle_of_findCycle hn h []
  have hlayered := isLayering_sortLayers fun sid => mem_sortLayers_of_not_hasCycle hc
  obtain ⟨rank, hrank, hbound⟩ := hlayered.exists_rank
  have hlength : (sortLayers plan []).length ≤ plan.steps.length := by
    have hsub : (sortLayers plan []).flatten ⊆ stepIds plan.steps := fun sid hsid =>
      ((hlayered.mem_iff sid).mp hsid).1
    have hle := (hlayered.nodup.subperm hsub).length_le
    have hids : (stepIds plan.steps).length = plan.steps.length := by simp [stepIds]
    have hflat := length_le_length_flatten hlayered.nonempty
    omega
  have hstep : ∀ x step, (stepMap plan.steps).get? x = some step → step ∈ plan.steps ∧ step.id = x := by
    intro x step hx
    obtain ⟨s, hs, he⟩ := List.mem_map.mp (Lib.Dict.mem_of_get?_ofPairs hx)
    cases he
    exact ⟨hs, rfl⟩
  refine hierarchyWithin_spec rank (fun x hx => ?_) (fun x step hx d hd => ?_) plan.steps (fun s hs => ?_) .empty
    (fun x n hx => ?_)
  · obtain ⟨s, hs, rfl⟩ := List.mem_map.mp hx
    exact ⟨s, get?_stepMap hn hs⟩
  · obtain ⟨hs, rfl⟩ := hstep x step hx
    obtain ⟨hdep, hids⟩ := List.mem_filter.mp hd
    exact hrank step.id d ⟨by simp, by simpa using hids, by simp, step, hs, rfl, hdep⟩
  · have hmem : s.id ∈ (sortLayers plan []).flatten :=
      (hlayered.mem_iff s.id).mpr ⟨List.mem_map_of_mem hs, by simp⟩
    exact ⟨List.mem_map_of_mem hs, get?_stepMap hn hs, by have := hbound s.id hmem; omega⟩
  · simp [Lib.Dict.empty, Lib.Dict.get?, Lib.assoc] at hx

/-- **The validator covers the sorter**: a plan accepted against `C` and `A` is sorted for all completed
and external ids that contain them, and on a plan that passed the checks for ids, dependencies and
cycles the level check ends at every bound from some depth on and reports nothing. -/
theorem validator_covers_sorter (plan : DagPlan) (C A : List String) :
    (validateDagStructure plan C A = [] →
      ∀ completed external : List String, (∀ x, x ∈ C ∨ x ∈ A → x ∈ completed ∨ x ∈ external) →
        ∃ layers, topologicalSort plan completed external = .ok layers) ∧
    ((uniqueIds 0 plan.steps []).1 = [] →
      (∀ s ∈ plan.steps, dependencyErrors (stepIds plan.steps) (C ++ A) s = []) →
      findCycle plan.steps (stepIds plan.steps) = [] →
        hierarchyErrors plan.steps (stepIds plan.steps) = [] ∧
          ∃ depth, ∀ fuel, depth ≤ fuel →
            hierarchyWithin (stepMap plan.steps) (stepIds plan.steps) fuel plan.steps .empty = some []) := by
  constructor
  · intro hvalid completed external hcover
    rw [topologicalSort_ok_iff]
    have hn := nodup_stepIds_of_valid hvalid
    refine ⟨fun s hs d hd => ?_, hn, ?_⟩
    · rcases (dep_of_valid hvalid hs hd).2 with h | h
      · exact Or.inl h
      · exact Or.inr (hcover d h)
    · by_cases hne : plan.steps = []
      · rintro ⟨x, hx⟩
        obtain ⟨d, ⟨-, -, -, s, hs, -⟩, -⟩ := Relation.TransGen.head'_iff.mp hx
        rw [hne] at hs
        simp at hs
      · obtain ⟨-, -, hcycle, -⟩ := validateDagStructure_eq_nil hvalid hne
        exact not_hasCycle_of_findCycle hn hcycle completed
  · intro hunique _ hcycle
    have hn : (stepIds plan.steps).Nodup := by
      simpa using (uniqueIds_spec 0 plan.steps [] List.nodup_nil hunique).2.1
    refine ⟨?_, plan.steps.length + 1, fun fuel hfuel => hierarchyWithin_of_findCycle hn hcycle hfuel⟩
    exact hierarchyLoop_eq _ _ _ _ _ (hierarchyWithin_of_findCycle hn hcycle (Nat.lt_succ_self _))

end covers

end JAgent
