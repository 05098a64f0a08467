import Mathlib.Data.List.Basic
import Mathlib.Algebra.BigOperators.Group.List.Basic
import Mathlib.Algebra.GroupWithZero.Nat

/-! # Work-list search

A stack of nodes to visit and the nodes seen so far: pop a node, skip it if it was seen, otherwise
note it and push what it leads to.  `search` is that loop with `none` for "the stack is not empty
after this many pops".

What it collects stays within every set closed under the edges that contains the start
(`search_sound`), is itself closed (`search_closed`), and over a finite set of nodes the loop ends:
every pop shortens the stack or uses up the edges of a node that was not seen (`search_isSome`). -/

namespace Lib.Worklist

variable {κ : Type} [DecidableEq κ] (succ : κ → List κ)

/-- The loop; `none` when it needs more than `fuel` rounds. -/
def search : ℕ → List κ → List κ → Option (List κ)
  | 0, _, _ => none
  | _ + 1, [], seen => some seen
  | fuel + 1, cur :: stack, seen =>
    if cur ∈ seen then search fuel stack seen
    else search fuel (succ cur ++ stack) (seen ++ [cur])

variable {succ}

/-- More fuel does not change what a finished search has collected. -/
theorem search_mono {fuel fuel' : ℕ} {stack seen out : List κ} (hle : fuel ≤ fuel')
    (h : search succ fuel stack seen = some out) : search succ fuel' stack seen = some out := by
  induction fuel generalizing fuel' stack seen with
  | zero => simp [search] at h
  | succ fuel ih =>
      obtain ⟨fuel', rfl⟩ := Nat.exists_eq_add_of_lt hle
      rw [show fuel + fuel' + 1 = (fuel + fuel') + 1 from rfl]
      cases stack with
      | nil => exact h
      | cons cur stack =>
          rw [search] at h ⊢
          split_ifs at h ⊢
          · exact ih (Nat.le_add_right _ _) h
          · exact ih (Nat.le_add_right _ _) h

/-- **Nothing is collected that the start does not lead to.** -/
theorem search_sound {P : κ → Prop} (hstep : ∀ x, P x → ∀ y ∈ succ x, P y) :
    ∀ (fuel : ℕ) (stack seen out : List κ), search succ fuel stack seen = some out →
      (∀ x ∈ stack, P x) → (∀ x ∈ seen, P x) → ∀ x ∈ out, P x := by
  intro fuel
  induction fuel with
  | zero =>
      intro stack seen out h
      simp [search] at h
  | succ fuel ih =>
      intro stack seen out h hstack hseen
      cases stack with
      | nil =>
          simp only [search, Option.some.injEq] at h
          rw [← h]
          exact hseen
      | cons cur stack =>
          have hcur := hstack cur List.mem_cons_self
          have hrest : ∀ x ∈ stack, P x := fun x hx => hstack x (List.mem_cons_of_mem cur hx)
          rw [search] at h
          split_ifs at h
          · exact ih stack seen out h hrest hseen
          · refine ih _ _ out h (fun x hx => ?_) (fun x hx => ?_)
            · rcases List.mem_append.mp hx with hx | hx
              · exact hstep cur hcur x hx
              · exact hrest x hx
            · rcases List.mem_append.mp hx with hx | hx
              · exact hseen x hx
              · rw [List.mem_singleton.mp hx]
                exact hcur

/-- **What is collected contains the start and is closed under the edges.** -/
theorem search_closed : ∀ (fuel : ℕ) (stack seen out : List κ), search succ fuel stack seen = some out →
    (∀ x ∈ seen, ∀ y ∈ succ x, y ∈ seen ∨ y ∈ stack) →
      (∀ x, x ∈ seen ∨ x ∈ stack → x ∈ out) ∧ ∀ x ∈ out, ∀ y ∈ succ x, y ∈ out := by
  intro fuel
  induction fuel with
  | zero =>
      intro stack seen out h
      simp [search] at h
  | succ fuel ih =>
      intro stack seen out h hseen
      cases stack with
      | nil =>
          simp only [search, Option.some.injEq] at h
          subst h
          refine ⟨fun x hx => ?_, fun x hx y hy => ?_⟩
          · simpa using hx
          · simpa using hseen x hx y hy
      | cons cur stack =>
          rw [search] at h
          split_ifs at h with hcur
          · obtain ⟨hin, hclosed⟩ := ih stack seen out h fun x hx y hy => by
              rcases hseen x hx y hy with hy | hy
              · exact Or.inl hy
              · rcases List.mem_cons.mp hy with rfl | hy
                · exact Or.inl hcur
                · exact Or.inr hy
            refine ⟨fun x hx => hin x ?_, hclosed⟩
            rcases hx with hx | hx
            · exact Or.inl hx
            · rcases List.mem_cons.mp hx with rfl | hx
              · exact Or.inl hcur
              · exact Or.inr hx
          · obtain ⟨hin, hclosed⟩ := ih _ _ out h fun x hx y hy => by
              rcases List.mem_append.mp hx with hx | hx
              · rcases hseen x hx y hy with hy | hy
                · exact Or.inl (List.mem_append_left _ hy)
                · rcases List.mem_cons.mp hy with rfl | hy
                  · exact Or.inl (List.mem_append_right _ List.mem_cons_self)
                  · exact Or.inr (List.mem_append_right _ hy)
              · rw [List.mem_singleton.mp hx] at hy
                exact Or.inr (List.mem_append_left _ hy)
            refine ⟨fun x hx => hin x ?_, hclosed⟩
            rcases hx with hx | hx
            · exact Or.inl (List.mem_append_left _ hx)
            · rcases List.mem_cons.mp hx with rfl | hx
              · exact Or.inl (List.mem_append_right _ List.mem_cons_self)
              · exact Or.inr (List.mem_append_right _ hx)

/-! ### Termination -/

variable (succ)

/-- The edges of the nodes that have not been seen. -/
def pending (nodes seen : List κ) : ℕ :=
  ((nodes.filter (· ∉ seen)).map fun x => (succ x).length).sum

variable {succ}

/-- Seeing a node uses up its edges. -/
theorem pending_append {nodes seen : List κ} {cur : κ} (hcur : cur ∈ nodes) (hnew : cur ∉ seen) :
    pending succ nodes (seen ++ [cur]) + (succ cur).length ≤ pending succ nodes seen := by
  have hmono : ∀ l : List κ, pending succ l (seen ++ [cur]) ≤ pending succ l seen := by
    intro l
    induction l with
    | nil => exact Nat.le_refl _
    | cons x l ih =>
        simp only [pending, List.filter_cons, List.mem_append, List.mem_singleton] at ih ⊢
        by_cases h1 : x ∈ seen
        · simp only [h1, true_or, not_true_eq_false, decide_false, Bool.false_eq_true, if_false]
          exact ih
        · by_cases h2 : x = cur
          · simp only [h2, or_true, hnew, not_true_eq_false, not_false_eq_true, decide_false, decide_true,
              Bool.false_eq_true, if_false, if_true, List.map_cons, List.sum_cons]
            omega
          · simp only [h1, h2, or_self, not_false_eq_true, decide_true, if_true, List.map_cons,
              List.sum_cons]
            omega
  induction nodes with
  | nil => simp at hcur
  | cons x nodes ih =>
      by_cases hx : x = cur
      · subst hx
        have hrest := hmono nodes
        simp only [pending, List.filter_cons, List.mem_append, List.mem_singleton, hnew, or_true,
          not_true_eq_false, decide_false, not_false_eq_true, decide_true, if_true, Bool.false_eq_true,
          if_false, List.map_cons, List.sum_cons] at hrest ⊢
        omega
      · have hrest := ih ((List.mem_cons.mp hcur).resolve_left fun h => hx h.symm)
        simp only [pending, List.filter_cons, List.mem_append, List.mem_singleton, hx, or_false] at hrest ⊢
        by_cases h1 : x ∈ seen <;> simp [h1] at hrest ⊢ <;> omega

/-- **The search ends** with as much fuel as there are nodes on the stack and edges to follow. -/
theorem search_isSome {nodes : List κ} (hnodes : ∀ x ∈ nodes, ∀ y ∈ succ x, y ∈ nodes) :
    ∀ (fuel : ℕ) (stack seen : List κ), (∀ x ∈ stack, x ∈ nodes) →
      stack.length + pending succ nodes seen < fuel → ∃ out, search succ fuel stack seen = some out := by
  intro fuel
  induction fuel with
  | zero =>
      intro stack seen _ hfuel
      omega
  | succ fuel ih =>
      intro stack seen hstack hfuel
      cases stack with
      | nil => exact ⟨seen, rfl⟩
      | cons cur stack =>
          have hrest : ∀ x ∈ stack, x ∈ nodes := fun x hx => hstack x (List.mem_cons_of_mem cur hx)
          have hcur := hstack cur List.mem_cons_self
          rw [List.length_cons] at hfuel
          rw [search]
          split_ifs with hseen
          · exact ih stack seen hrest (by omega)
          · refine ih _ _ (fun x hx => ?_) ?_
            · rcases List.mem_append.mp hx with hx | hx
              · exact hnodes cur hcur x hx
              · exact hrest x hx
            · have hless := @pending_append _ _ succ _ _ _ hcur hseen
              rw [List.length_append]
              omega

end Lib.Worklist
