import JAgent.Models.Structure
import Mathlib.Data.List.Chain

/-! # The cycle that is found

`_find_cycle` searches depth first and keeps the nodes it is in on a stack.  Each of them depends on the next
one and they are the gray nodes (`Search.OnStack`), so an edge into a gray node closes a cycle, and what the
search cuts out of its stack is that cycle (`Search.dfs_sound`).  That it misses none was needed for the
structure check (`acc_of_findCycle`).

The recursion of the source is not bounded: `findCycleWithin` is the same search with `none` for "not done
within this depth", and the number of white nodes bounds how deep it goes. -/

namespace JAgent

namespace Search
variable (adjacency : Lib.Dict String (List String))

/-- Each node depends on the next one. -/
def Path (c : List String) : Prop := c.IsChain fun x d => Dep adjacency d x

/-- A path from a node back to it. -/
structure Closes (c : List String) : Prop where
  path : Path adjacency c
  ends : c.head? = c.getLast?
  long : 2 ≤ c.length

/-- The stack is a path, and the gray nodes are on it. -/
structure OnStack (st : DfsState) : Prop where
  path : Path adjacency st.stack
  gray : ∀ x, colourOf st x = .gray → x ∈ st.stack

/-- No node has turned gray, and the stack is as it was. -/
structure Returns (st st' : DfsState) : Prop where
  stack : st'.stack = st.stack
  gray : ∀ x, colourOf st' x = .gray → colourOf st x = .gray

variable {adjacency}

theorem Returns.trans {a b c : DfsState} (h : Returns a b) (h' : Returns b c) : Returns a c :=
  ⟨h'.stack.trans h.stack, fun x hx => h.gray x (h'.gray x hx)⟩

theorem OnStack.of_returns {st st' : DfsState} (h : OnStack adjacency st) (hr : Returns st st') :
    OnStack adjacency st' := by
  refine ⟨?_, fun x hx => ?_⟩
  · rw [hr.stack]
    exact h.path
  · rw [hr.stack]
    exact h.gray x (hr.gray x hx)

/-- What is cut out of the stack when its last node depends on one of them. -/
theorem closes_of_mem {stack : List String} {sid nxt : String} (hpath : Path adjacency stack)
    (hlast : stack.getLast? = some sid) (hdep : Dep adjacency nxt sid) (hmem : nxt ∈ stack) :
    Closes adjacency (stack.drop (stack.idxOf nxt) ++ [nxt]) := by
  have hlt : stack.idxOf nxt < stack.length := List.idxOf_lt_length_iff.mpr hmem
  have hhead : (stack.drop (stack.idxOf nxt)).head? = some nxt := by
    rw [List.head?_drop, List.getElem?_idxOf hmem]
  have hlast' : (stack.drop (stack.idxOf nxt)).getLast? = some sid := by
    rw [List.getLast?_drop, if_neg (by omega), hlast]
  refine ⟨?_, ?_, ?_⟩
  · refine List.isChain_append.mpr ⟨hpath.drop _, List.isChain_singleton nxt, ?_⟩
    intro x hx y hy
    rw [hlast'] at hx
    obtain rfl := Option.some.inj hx
    obtain rfl := Option.some.inj hy
    exact hdep
  · rw [List.head?_append, hhead, List.getLast?_append]
    rfl
  · rw [List.length_append, List.length_drop, List.length_singleton]
    omega

variable (adjacency) in
/-- A visit finds a cycle or comes back, from a stack whose last node depends on the visited one. -/
def Sound (visit : String → DfsState → Option (List String) × DfsState) : Prop :=
  ∀ sid st, OnStack adjacency st → (∀ x, st.stack.getLast? = some x → Dep adjacency sid x) →
    (∀ c st', visit sid st = (some c, st') → Closes adjacency c) ∧
      ∀ st', visit sid st = (none, st') → Returns st st'

/-- The loop over the dependencies of the last node of the stack. -/
theorem dfsLoop_sound {visit : String → DfsState → Option (List String) × DfsState}
    (hvisit : Sound adjacency visit) {sid : String} (ns : List String) (st : DfsState)
    (hst : OnStack adjacency st) (hlast : st.stack.getLast? = some sid)
    (hns : ∀ n ∈ ns, Dep adjacency n sid) :
    (∀ c st', dfsLoop visit ns st = (some c, st') → Closes adjacency c) ∧
      ∀ st', dfsLoop visit ns st = (none, st') → Returns st st' := by
  induction ns generalizing st with
  | nil =>
      refine ⟨fun c st' h => (by cases h), fun st' h => ?_⟩
      cases h
      exact ⟨rfl, fun _ hx => hx⟩
  | cons nxt rest ih =>
      have hnxt := hns nxt List.mem_cons_self
      have hrest : ∀ n ∈ rest, Dep adjacency n sid := fun n hn => hns n (List.mem_cons_of_mem nxt hn)
      rw [dfsLoop]
      cases hc : st.colour.getD nxt .white with
      | gray =>
          refine ⟨fun c st' h => ?_, fun st' h => (by cases h)⟩
          cases h
          exact closes_of_mem hst.path hlast hnxt (hst.gray nxt hc)
      | white =>
          obtain ⟨hfound, hback⟩ := hvisit nxt st hst fun x hx => by
            rw [hlast] at hx
            obtain rfl := Option.some.inj hx
            exact hnxt
          cases hv : visit nxt st with
          | mk found st₁ =>
              cases found with
              | some c₁ =>
                  refine ⟨fun c st' h => ?_, fun st' h => (by cases h)⟩
                  cases h
                  exact hfound c₁ st₁ hv
              | none =>
                  have hr := hback st₁ hv
                  have hlast₁ : st₁.stack.getLast? = some sid := by rw [hr.stack, hlast]
                  obtain ⟨hsome, hnone⟩ := ih st₁ (hst.of_returns hr) hlast₁ hrest
                  exact ⟨hsome, fun st' h => hr.trans (hnone st' h)⟩
      | black => exact ih st hst hlast hrest

/-- **A visit finds a cycle or comes back.** -/
theorem dfs_sound (fuel : ℕ) : Sound adjacency (dfs adjacency fuel) := by
  induction fuel with
  | zero =>
      intro sid st _ _
      refine ⟨fun c st' h => (by cases h), fun st' h => ?_⟩
      cases h
      exact ⟨rfl, fun _ hx => hx⟩
  | succ fuel ih =>
      intro sid st hst hdep
      have hpushed : OnStack adjacency ⟨st.colour.set sid .gray, st.stack ++ [sid]⟩ := by
        refine ⟨?_, fun x hx => ?_⟩
        · refine List.isChain_append.mpr ⟨hst.path, List.isChain_singleton sid, ?_⟩
          intro x hx y hy
          obtain rfl := Option.some.inj hy
          exact hdep x hx
        · rw [colourOf_set] at hx
          split_ifs at hx with hsx
          · exact List.mem_append_right _ (hsx ▸ List.mem_singleton_self sid)
          · exact List.mem_append_left _ (hst.gray x hx)
      have hlast : (st.stack ++ [sid]).getLast? = some sid := List.getLast?_concat
      obtain ⟨hfound, hback⟩ := dfsLoop_sound ih (adjacency.getD sid []) _ hpushed hlast fun n hn => hn
      rw [dfs]
      cases hl : dfsLoop (dfs adjacency fuel) (adjacency.getD sid [])
          ⟨st.colour.set sid .gray, st.stack ++ [sid]⟩ with
      | mk found st₂ =>
          cases found with
          | some c₁ =>
              refine ⟨fun c st' h => ?_, fun st' h => (by cases h)⟩
              cases h
              exact hfound c₁ st₂ hl
          | none =>
              refine ⟨fun c st' h => (by cases h), fun st' h => ?_⟩
              cases h
              have hr := hback st₂ hl
              refine ⟨?_, fun x hx => ?_⟩
              · rw [hr.stack, List.dropLast_concat]
              · rw [colourOf_set] at hx
                split_ifs at hx with hsx
                have hgray := hr.gray x hx
                rw [colourOf_set, if_neg hsx] at hgray
                exact hgray

/-- What the outer loop returns is a cycle or empty. -/
theorem cycleLoop_sound {fuel : ℕ} (rest : List String) (st : DfsState) (hst : OnStack adjacency st)
    (hempty : st.stack = []) (h : cycleLoop adjacency fuel rest st ≠ []) :
    Closes adjacency (cycleLoop adjacency fuel rest st) := by
  induction rest generalizing st with
  | nil => exact absurd rfl h
  | cons sid rest ih =>
      rw [cycleLoop] at h ⊢
      by_cases hw : st.colour.getD sid .white = .white
      · rw [if_pos hw] at h ⊢
        obtain ⟨hfound, hback⟩ := dfs_sound fuel sid st hst fun x hx => by
          rw [hempty] at hx
          cases hx
        cases hd : dfs adjacency fuel sid st with
        | mk found st₁ =>
            cases found with
            | some c => exact hfound c st₁ hd
            | none =>
                have hr := hback st₁ hd
                rw [hd] at h
                exact ih st₁ (hst.of_returns hr) (hr.stack.trans hempty) h
      · rw [if_neg hw] at h ⊢
        exact ih st hst hempty h

/-! ### The depth of the search -/

/-- `dfsLoop` over a recursion that may not be done. -/
def dfsLoopWithin (visit : String → DfsState → Option (Option (List String) × DfsState)) :
    List String → DfsState → Option (Option (List String) × DfsState)
  | [], st => some (none, st)
  | nxt :: rest, st => match st.colour.getD nxt .white with
    | .gray => some (some (st.stack.drop (st.stack.idxOf nxt) ++ [nxt]), st)
    | .white => match visit nxt st with
      | none => none
      | some (some c, st') => some (some c, st')
      | some (none, st') => dfsLoopWithin visit rest st'
    | .black => dfsLoopWithin visit rest st

variable (adjacency) in
/-- `_dfs` as the source has it, without a bound: `none` when it recurses deeper than `fuel`. -/
def dfsWithin : ℕ → String → DfsState → Option (Option (List String) × DfsState)
  | 0, _, _ => none
  | fuel + 1, sid, st =>
    match dfsLoopWithin (dfsWithin fuel) (adjacency.getD sid [])
        ⟨st.colour.set sid .gray, st.stack ++ [sid]⟩ with
    | none => none
    | some (some c, st') => some (some c, st')
    | some (none, st') => some (none, ⟨st'.colour.set sid .black, st'.stack.dropLast⟩)

variable (adjacency) in
/-- The outer loop; `none` when a visit is not done within the depth. -/
def cycleLoopWithin (fuel : ℕ) : List String → DfsState → Option (List String)
  | [], _ => some []
  | sid :: rest, st =>
    if st.colour.getD sid .white = .white then
      match dfsWithin adjacency fuel sid st with
      | none => none
      | some (some c, _) => some c
      | some (none, st') => cycleLoopWithin fuel rest st'
    else cycleLoopWithin fuel rest st

variable {ids : List String}

theorem dfsLoopWithin_eq {within : String → DfsState → Option (Option (List String) × DfsState)}
    {visit : String → DfsState → Option (List String) × DfsState} {fuel : ℕ}
    (hwithin : ∀ sid st, Good adjacency st → sid ∈ ids → colourOf st sid = .white → whites ids st ≤ fuel →
      within sid st = some (visit sid st))
    (hvisit : Visits adjacency ids visit fuel) (ns : List String) (st : DfsState) (hgood : Good adjacency st)
    (hns : ∀ n ∈ ns, n ∈ ids) (hfuel : whites ids st ≤ fuel) :
    dfsLoopWithin within ns st = some (dfsLoop visit ns st) := by
  induction ns generalizing st with
  | nil => rfl
  | cons nxt rest ih =>
      have hrest : ∀ n ∈ rest, n ∈ ids := fun n hn => hns n (List.mem_cons_of_mem nxt hn)
      rw [dfsLoopWithin, dfsLoop]
      cases hc : st.colour.getD nxt .white with
      | gray => rfl
      | white =>
          have hnxt := hns nxt List.mem_cons_self
          dsimp only
          rw [hwithin nxt st hgood hnxt hc hfuel]
          cases hv : visit nxt st with
          | mk found st₁ =>
              cases found with
              | some c => rfl
              | none =>
                  obtain ⟨hgood₁, hext, -⟩ := hvisit nxt st st₁ hgood hnxt hc hfuel hv
                  exact ih st₁ hgood₁ hrest ((hext.whites_le ids).trans hfuel)
      | black => exact ih st hgood hrest hfuel

/-- The number of white nodes bounds the depth of a visit. -/
theorem dfsWithin_eq (hadj : ∀ x, ∀ d ∈ adjacency.getD x [], d ∈ ids) (fuel : ℕ) (sid : String) (st : DfsState)
    (hgood : Good adjacency st) (hsid : sid ∈ ids) (hw : colourOf st sid = .white)
    (hfuel : whites ids st ≤ fuel) : dfsWithin adjacency fuel sid st = some (dfs adjacency fuel sid st) := by
  induction fuel generalizing sid st with
  | zero =>
      have hpos : 0 < whites ids st := List.countP_pos_iff.mpr ⟨sid, hsid, by simpa using hw⟩
      omega
  | succ fuel ih =>
      have hless := whites_set_lt ids hsid hw (st.stack ++ [sid])
      have hgood₁ : Good adjacency ⟨st.colour.set sid .gray, st.stack ++ [sid]⟩ := by
        intro x hx
        rw [colourOf_set] at hx
        split_ifs at hx with hsx
        exact hgood x hx
      rw [dfsWithin, dfs, dfsLoopWithin_eq ih (dfs_spec hadj fuel) _ _ hgood₁ (hadj sid) (by omega)]
      cases dfsLoop (dfs adjacency fuel) (adjacency.getD sid []) ⟨st.colour.set sid .gray, st.stack ++ [sid]⟩ with
      | mk found st₂ => cases found <;> rfl

theorem cycleLoopWithin_eq (hadj : ∀ x, ∀ d ∈ adjacency.getD x [], d ∈ ids) {fuel : ℕ} (rest : List String)
    (st : DfsState) (hgood : Good adjacency st) (hrest : ∀ x ∈ rest, x ∈ ids) (hfuel : whites ids st ≤ fuel) :
    cycleLoopWithin adjacency fuel rest st = some (cycleLoop adjacency fuel rest st) := by
  induction rest generalizing st with
  | nil => rfl
  | cons sid rest ih =>
      have htail : ∀ x ∈ rest, x ∈ ids := fun x hx => hrest x (List.mem_cons_of_mem sid hx)
      rw [cycleLoopWithin, cycleLoop]
      by_cases hw : st.colour.getD sid .white = .white
      · have hsid := hrest sid List.mem_cons_self
        rw [if_pos hw, if_pos hw, dfsWithin_eq hadj fuel sid st hgood hsid hw hfuel]
        cases hd : dfs adjacency fuel sid st with
        | mk found st₁ =>
            cases found with
            | some c => rfl
            | none =>
                obtain ⟨hgood₁, hext, -⟩ := dfs_spec hadj fuel sid st st₁ hgood hsid hw hfuel hd
                exact ih st₁ hgood₁ htail ((hext.whites_le ids).trans hfuel)
      · rw [if_neg hw, if_neg hw]
        exact ih st hgood htail hfuel

/-- A search that is done within a depth is done in the same way within a larger one. -/
theorem dfsLoopWithin_mono {within within' : String → DfsState → Option (Option (List String) × DfsState)}
    (h : ∀ sid st r, within sid st = some r → within' sid st = some r) (ns : List String) (st : DfsState)
    {r : Option (List String) × DfsState} (hr : dfsLoopWithin within ns st = some r) :
    dfsLoopWithin within' ns st = some r := by
  induction ns generalizing st with
  | nil => exact hr
  | cons nxt rest ih =>
      rw [dfsLoopWithin] at hr ⊢
      cases hc : st.colour.getD nxt .white with
      | gray =>
          rw [hc] at hr
          exact hr
      | white =>
          rw [hc] at hr
          dsimp only at hr ⊢
          cases hv : within nxt st with
          | none =>
              rw [hv] at hr
              cases hr
          | some out =>
              rw [hv] at hr
              rw [h nxt st out hv]
              obtain ⟨found, st₁⟩ := out
              cases found with
              | some c => exact hr
              | none => exact ih st₁ hr
      | black =>
          rw [hc] at hr
          exact ih st hr

theorem dfsWithin_mono (fuel : ℕ) (sid : String) (st : DfsState) (r : Option (List String) × DfsState)
    (hr : dfsWithin adjacency fuel sid st = some r) : dfsWithin adjacency (fuel + 1) sid st = some r := by
  induction fuel generalizing sid st r with
  | zero => cases hr
  | succ fuel ih =>
      rw [dfsWithin] at hr ⊢
      cases hl : dfsLoopWithin (dfsWithin adjacency fuel) (adjacency.getD sid [])
          ⟨st.colour.set sid .gray, st.stack ++ [sid]⟩ with
      | none =>
          rw [hl] at hr
          cases hr
      | some out =>
          rw [hl] at hr
          rw [dfsLoopWithin_mono ih _ _ hl]
          exact hr

theorem cycleLoopWithin_mono {fuel : ℕ} (rest : List String) (st : DfsState) {c : List String}
    (hc : cycleLoopWithin adjacency fuel rest st = some c) :
    cycleLoopWithin adjacency (fuel + 1) rest st = some c := by
  induction rest generalizing st with
  | nil => exact hc
  | cons sid rest ih =>
      rw [cycleLoopWithin] at hc ⊢
      by_cases hw : st.colour.getD sid .white = .white
      · rw [if_pos hw] at hc ⊢
        cases hd : dfsWithin adjacency fuel sid st with
        | none =>
            rw [hd] at hc
            cases hc
        | some out =>
            rw [hd] at hc
            rw [dfsWithin_mono fuel sid st out hd]
            obtain ⟨found, st₁⟩ := out
            cases found with
            | some c₁ => exact hc
            | none => exact ih st₁ hc
      · rw [if_neg hw] at hc ⊢
        exact ih st hc

end Search

/-! ### The search of the plan -/

section plan
variable [Py] (steps : List DagStep) (ids : List String)

/-- `_find_cycle` as the source has it; `none` when it recurses deeper than `fuel`. -/
def findCycleWithin (fuel : ℕ) : Option (List String) :=
  let adjacency := cycleAdjacency steps ids
  let order := Py.setOrder ids
  Search.cycleLoopWithin adjacency fuel order ⟨.ofPairs (order.map fun sid => (sid, .white)), []⟩

/-- The in-plan dependency graph: the step `a` depends on `b`. -/
def DependsOn (a b : String) : Prop := ∃ s ∈ steps, s.id = a ∧ b ∈ s.dependsOn ∧ b ∈ ids

variable {steps ids}

omit [Py] in
theorem dep_iff (hn : (stepIds steps).Nodup) {x d : String} :
    Search.Dep (cycleAdjacency steps ids) d x ↔ DependsOn steps ids x d := by
  constructor
  · intro h
    have hids := mem_cycleAdjacency h
    unfold Search.Dep Lib.Dict.getD at h
    cases hx : (cycleAdjacency steps ids).get? x with
    | none =>
        rw [hx] at h
        cases h
    | some ds =>
        obtain ⟨s, hs, heq⟩ := List.mem_map.mp (Lib.Dict.mem_of_get?_ofPairs hx)
        cases heq
        rw [hx] at h
        exact ⟨s, hs, rfl, (List.mem_filter.mp h).1, hids⟩
  · rintro ⟨s, hs, rfl, hd, hids⟩
    exact dep_cycleAdjacency hn hs hd hids

omit [Py] in
/-- Behind its first node, a path has only dependencies. -/
theorem mem_of_path {a : String} {l : List String} (h : Search.Path (cycleAdjacency steps ids) (a :: l))
    {x : String} (hx : x ∈ l) : x ∈ ids := by
  induction l generalizing a with
  | nil => cases hx
  | cons b l ih =>
      obtain ⟨hab, hrest⟩ := List.isChain_cons_cons.mp h
      rcases List.mem_cons.mp hx with rfl | hx
      · exact mem_cycleAdjacency hab
      · exact ih hrest hx

omit [Py] in
/-- A cycle that was found, read in the graph of the plan. -/
theorem Search.Closes.spec (hn : (stepIds steps).Nodup) {c : List String}
    (h : Search.Closes (cycleAdjacency steps ids) c) :
    c.IsChain (DependsOn steps ids) ∧ (∀ x ∈ c, x ∈ ids) ∧ ∃ x, Relation.TransGen (DependsOn steps ids) x x := by
  have hchain : c.IsChain (DependsOn steps ids) := h.path.imp fun _ _ hdep => (dep_iff hn).mp hdep
  obtain ⟨hpath, hends, hlong⟩ := h
  cases c with
  | nil => exact absurd hlong (by decide)
  | cons a l =>
      cases l with
      | nil => exact absurd hlong (by simp)
      | cons b l =>
          rw [List.head?_cons, List.getLast?_cons_cons] at hends
          refine ⟨hchain, fun x hx => ?_, a, ?_⟩
          · rcases List.mem_cons.mp hx with rfl | hx
            · -- the first node is also the last one
              exact mem_of_path hpath (List.mem_of_getLast? hends.symm)
            · exact mem_of_path hpath hx
          · obtain ⟨hab, hrest⟩ := List.isChain_cons_cons.mp hchain
            refine Relation.TransGen.head' hab (List.relationReflTransGen_of_exists_isChain_cons l hrest ?_)
            rw [List.getLast?_eq_getLast_of_ne_nil (List.cons_ne_nil b l)] at hends
            exact (Option.some.inj hends).symm

/-- The state in which the search starts. -/
theorem initial_white (x : String) : Search.colourOf
    ⟨.ofPairs ((Py.setOrder ids).map fun sid => (sid, .white)), []⟩ x = .white :=
  getD_ofPairs_const _ _ x

/-- **The search ends within the number of nodes**, whatever depth it is allowed beyond that. -/
theorem findCycleWithin_eq {fuel : ℕ} (hfuel : ids.length < fuel) :
    findCycleWithin steps ids fuel = some (findCycle steps ids) := by
  have hstart : findCycleWithin steps ids (ids.length + 1) = some (findCycle steps ids) := by
    refine Search.cycleLoopWithin_eq (fun x d hd => mem_cycleAdjacency hd) (Py.setOrder ids) _ ?_ ?_ ?_
    · intro x hx
      rw [initial_white] at hx
      cases hx
    · exact fun x hx => (Py.setOrder_perm ids).mem_iff.mp hx
    · exact List.countP_le_length.trans (Nat.le_succ _)
  induction fuel, hfuel using Nat.le_induction with
  | base => exact hstart
  | succ fuel _ ih => exact Search.cycleLoopWithin_mono _ _ ih

/-- **Cycle detection is sound and complete**: for every order in which the ids are visited the search ends,
returns nothing exactly when the in-plan dependency graph has no cycle, and otherwise returns a cycle. -/
theorem find_cycle_correct (steps : List DagStep) (ids : List String) (hn : (stepIds steps).Nodup) :
    (∀ fuel, ids.length < fuel → findCycleWithin steps ids fuel = some (findCycle steps ids)) ∧
    (findCycle steps ids = [] ↔ ¬∃ x, Relation.TransGen (DependsOn steps ids) x x) ∧
    (findCycle steps ids ≠ [] → 2 ≤ (findCycle steps ids).length ∧ (∀ x ∈ findCycle steps ids, x ∈ ids) ∧
      (findCycle steps ids).head? = (findCycle steps ids).getLast? ∧
      (findCycle steps ids).IsChain (DependsOn steps ids)) := by
  have hfound : findCycle steps ids ≠ [] → Search.Closes (cycleAdjacency steps ids) (findCycle steps ids) := by
    refine Search.cycleLoop_sound _ _ ⟨List.isChain_nil, fun x hx => ?_⟩ rfl
    rw [initial_white] at hx
    cases hx
  refine ⟨fun fuel hfuel => findCycleWithin_eq hfuel, ⟨?_, fun h => ?_⟩, fun h => ?_⟩
  · rintro hnone ⟨x, hx⟩
    have hid : x ∈ ids := by
      obtain ⟨y, -, -, -, -, -, hid⟩ := Relation.TransGen.tail'_iff.mp hx
      exact hid
    refine not_transGen_self (acc_of_findCycle hnone x hid) ?_
    refine Relation.transGen_swap.mp (Relation.TransGen.mono (fun a b hab => ?_) x x hx)
    exact (dep_iff hn).mpr hab
  · by_contra hne
    exact h ((hfound hne).spec hn).2.2
  · obtain ⟨hchain, hids, -⟩ := (hfound h).spec hn
    exact ⟨(hfound h).long, hids, (hfound h).ends, hchain⟩

end plan

section scenario
attribute [local instance] asciiPy

/-- A step with its dependencies. -/
def dependentStep (id : String) (dependsOn : List String) : DagStep := { id, tool := "file_read", dependsOn }

/-- Two steps that wait for each other. -/
theorem found_cycle_closes :
    (stepIds [dependentStep "a" ["b"], dependentStep "b" ["a"]]).Nodup ∧
      2 ≤ (findCycle [dependentStep "a" ["b"], dependentStep "b" ["a"]] ["a", "b"]).length ∧
      findCycle [dependentStep "a" ["b"], dependentStep "b" ["a"]] ["a", "b"] = ["a", "b", "a"] := by
  have hn : (stepIds [dependentStep "a" ["b"], dependentStep "b" ["a"]]).Nodup := by decide
  have hvalue : findCycle [dependentStep "a" ["b"], dependentStep "b" ["a"]] ["a", "b"] = ["a", "b", "a"] := by
    decide +kernel
  refine ⟨hn, ((find_cycle_correct _ _ hn).2.2 ?_).1, hvalue⟩
  rw [hvalue]
  exact List.cons_ne_nil _ _

end scenario

end JAgent
