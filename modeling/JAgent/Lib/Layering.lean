import JAgent.Lib.Kahn
import Mathlib.Order.WellFoundedSet
import Mathlib.Data.Set.Finite.List

/-! # When layering by in-degrees is complete

The rounds of `Lib.Kahn` run until the queue is empty (`Inv.exhaust`), and then a node that is not
skipped was listed unless it waits, directly or not, for a cycle (`cycle_of_not_listed`).  Every
layer is non-empty (`layers_ne_nil`) and no node could have been listed a layer earlier: it waits
for a node of the layer before its own (`layers_prev_edge`), hence for no ranking that respects the
edges is its rank below the number of its layer (`layer_le_rank`). -/

namespace Lib.Kahn

/-- A finite set in which everything leads on contains a cycle. -/
theorem exists_cycle {κ : Type} {r : κ → κ → Prop} {l : List κ} {p : κ → Prop} {x : κ}
    (hx : x ∈ l) (hp : p x) (hstep : ∀ x ∈ l, p x → ∃ d ∈ l, p d ∧ r x d) :
    ∃ x, p x ∧ Relation.TransGen (fun x d => p x ∧ p d ∧ r x d) x x := by
  by_contra hno
  push Not at hno
  let down : κ → κ → Prop := fun d x => Relation.TransGen (fun x d => p x ∧ p d ∧ r x d) x d
  have hstart : ∀ {x d : κ}, down d x → p x := by
    intro x d h
    induction h using Relation.TransGen.head_induction_on with
    | single h => exact h.1
    | head h _ _ => exact h.1
  have : IsStrictOrder κ down :=
    { irrefl := fun x h => hno x (hstart h) h
      trans := fun a b c hab hbc => hbc.trans hab }
  have hwf : Set.WellFoundedOn { x | x ∈ l } down := (List.finite_toSet l).wellFoundedOn
  obtain ⟨m, hm, hmin⟩ := (hwf.subset fun x hx => hx.1 : Set.WellFoundedOn { x | x ∈ l ∧ p x } down)
    |>.has_min Set.univ ⟨⟨x, hx, hp⟩, trivial⟩
  obtain ⟨d, hd, hpd, hrd⟩ := hstep m.1 m.2.1 m.2.2
  exact hmin ⟨d, hd, hpd⟩ trivial (Relation.TransGen.single ⟨m.2.2, hpd, hrd⟩)

section complete
variable {κ : Type} [DecidableEq κ] {succ : κ → List κ} {skip : κ → Bool} {nodes : List κ}
  {E : List (κ × κ)}

/-- What has been queued fits into the nodes. -/
theorem Inv.length_le {done : List κ} {st : Sweep κ} (h : Inv skip nodes E done st) :
    done.length + st.queue.length ≤ nodes.length := by
  have hsub : (done ++ st.queue) ⊆ nodes := fun x hx => ((h.queued x).mp hx).1
  have hlen := (h.nodup.subperm hsub).length_le
  rwa [List.length_append] at hlen

/-- **The rounds run until the queue is empty**; with as much fuel as there are nodes left, the
fuel is not what ends them. -/
theorem Inv.exhaust (hG : Graph succ skip nodes E) (fuel : ℕ) :
    ∀ (q done : List κ) (deg : Dict κ ℤ), Inv skip nodes E done ⟨deg, q⟩ →
      nodes.length < done.length + fuel →
        ∃ deg', Inv skip nodes E (done ++ (Kahn.layers succ skip fuel q deg).flatten) ⟨deg', []⟩ := by
  induction fuel with
  | zero =>
      intro q done deg h hfuel
      have hlen := h.length_le
      simp only at hlen
      omega
  | succ fuel ih =>
      intro q done deg h hfuel
      cases q with
      | nil => exact ⟨deg, by simpa [Kahn.layers] using h⟩
      | cons x xs =>
          obtain ⟨h1, h2⟩ := Inv.sweep hG (x :: xs) [] done deg (by simpa using h)
          have hmore : nodes.length < (done ++ x :: xs).length + fuel := by
            rw [List.length_append, List.length_cons]
            omega
          obtain ⟨deg', h3⟩ := ih _ _ _ h2 hmore
          refine ⟨deg', ?_⟩
          rw [Kahn.layers, List.flatten_cons, ← List.append_assoc, h1]
          exact h3

/-- With an empty queue, a node that was not listed waits for one that was not. -/
theorem Inv.waits {done : List κ} {deg : Dict κ ℤ} (h : Inv skip nodes E done ⟨deg, []⟩) {x : κ}
    (hx : x ∈ nodes) (hskip : skip x = false) (hdone : x ∉ done) : ∃ d, (x, d) ∈ E ∧ d ∉ done := by
  have hw : waiting E done x ≠ 0 := fun hw =>
    hdone (by simpa using (h.queued x).mpr ⟨hx, hskip, hw⟩)
  unfold waiting at hw
  rw [Ne, List.countP_eq_zero] at hw
  push Not at hw
  obtain ⟨e, he, hed⟩ := hw
  simp only [decide_eq_true_eq] at hed
  exact ⟨e.2, by rw [← hed.1]; exact he, hed.2⟩

/-- **What is not listed leads into a cycle** of nodes that are not skipped, if every edge leads to
such a node. -/
theorem Inv.cycle_of_not_listed {done : List κ} {deg : Dict κ ℤ}
    (h : Inv skip nodes E done ⟨deg, []⟩) (hE : ∀ e ∈ E, e.2 ∈ nodes ∧ skip e.2 = false) {x : κ}
    (hx : x ∈ nodes) (hskip : skip x = false) (hdone : x ∉ done) :
    ∃ y, Relation.TransGen (fun x d => skip x = false ∧ (x, d) ∈ E) y y := by
  obtain ⟨y, -, hy⟩ := exists_cycle (r := fun x d => (x, d) ∈ E)
    (p := fun x => skip x = false ∧ x ∉ done) hx ⟨hskip, hdone⟩ (by
      intro z hz hpz
      obtain ⟨d, hd, hnot⟩ := h.waits hz hpz.1 hpz.2
      exact ⟨d, (hE _ hd).1, ⟨(hE _ hd).2, hnot⟩, hd⟩)
  exact ⟨y, Relation.TransGen.mono (fun a b hab => ⟨hab.1.1, hab.2.2⟩) y y hy⟩

/-! ### Each layer -/

/-- No layer is empty. -/
theorem layers_ne_nil (hG : Graph succ skip nodes E) (fuel : ℕ) :
    ∀ (q done : List κ) (deg : Dict κ ℤ), Inv skip nodes E done ⟨deg, q⟩ →
      ∀ l ∈ Kahn.layers succ skip fuel q deg, l ≠ [] := by
  induction fuel with
  | zero =>
      intro q done deg _ l hl
      simp [Kahn.layers] at hl
  | succ fuel ih =>
      intro q done deg h l hl
      cases q with
      | nil => simp [Kahn.layers] at hl
      | cons x xs =>
          obtain ⟨h1, h2⟩ := Inv.sweep hG (x :: xs) [] done deg (by simpa using h)
          rw [Kahn.layers, h1, List.mem_cons] at hl
          rcases hl with rfl | hl
          · exact List.cons_ne_nil x xs
          · exact ih _ _ _ h2 l hl

section
variable {q : List κ} {deg : Dict κ ℤ} {fuel : ℕ} {L₁ L₂ : List (List κ)} {l m : List κ}

/-- **A node waits for one of the layer before its own**, so it could not have been listed earlier. -/
theorem layers_prev_edge (hG : Graph succ skip nodes E) (h : Inv skip nodes E [] ⟨deg, q⟩)
    (hL : Kahn.layers succ skip fuel q deg = L₁ ++ m :: l :: L₂) {x : κ} (hx : x ∈ l) :
    ∃ d ∈ m, (x, d) ∈ E := by
  have hL' : Kahn.layers succ skip fuel q deg = (L₁ ++ [m]) ++ l :: L₂ := by simpa using hL
  obtain ⟨deg', h'⟩ := Inv.layers hG fuel q [] deg h L₁ m (l :: L₂) hL
  have hnodup := layers_nodup hG h hL'
  rw [List.flatten_append, List.flatten_singleton] at hnodup
  have hnot : x ∉ [] ++ L₁.flatten ++ m := by
    rw [List.nil_append]
    intro hin
    exact (List.nodup_append.mp hnodup).2.2 x hin x hx rfl
  have hnode := mem_layers hG h (by rw [hL']; simp) hx
  have hw : waiting E ([] ++ L₁.flatten) x ≠ 0 := fun hw =>
    hnot ((h'.queued x).mpr ⟨hnode.1, hnode.2, hw⟩)
  unfold waiting at hw
  rw [Ne, List.countP_eq_zero] at hw
  push Not at hw
  obtain ⟨e, he, hed⟩ := hw
  simp only [decide_eq_true_eq, List.nil_append] at hed
  have hedge : (x, e.2) ∈ E := by
    rw [← hed.1]
    exact he
  have hearlier := layers_edge_lt hG h hL' hx hedge
  rw [List.flatten_append, List.flatten_singleton, List.mem_append] at hearlier
  exact ⟨e.2, hearlier.resolve_left hed.2, hedge⟩

/-- **No ranking that respects the edges ranks a node below its layer.** -/
theorem layer_le_rank (hG : Graph succ skip nodes E) (h : Inv skip nodes E [] ⟨deg, q⟩)
    {rank : κ → ℕ} (hrank : ∀ x d, skip x = false → (x, d) ∈ E → rank d < rank x) :
    ∀ (L₁ : List (List κ)) (l : List κ) (L₂ : List (List κ)),
      Kahn.layers succ skip fuel q deg = L₁ ++ l :: L₂ → ∀ x ∈ l, L₁.length ≤ rank x := by
  intro L₁
  induction L₁ using List.reverseRecOn with
  | nil => intro l L₂ _ x _; exact Nat.zero_le _
  | append_singleton L m ih =>
      intro l L₂ hL x hx
      have hL' : Kahn.layers succ skip fuel q deg = L ++ m :: l :: L₂ := by simpa using hL
      obtain ⟨d, hd, hedge⟩ := layers_prev_edge hG h hL' hx
      have hskip := (mem_layers hG h (by rw [hL]; simp) hx).2
      have hlt := hrank x d hskip hedge
      have hle := ih m (l :: L₂) hL' d hd
      rw [List.length_append, List.length_singleton]
      omega

end

end complete

end Lib.Kahn
