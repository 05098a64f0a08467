import Mathlib.Data.List.Sort

/-! # The first of a ranked list

A view shows the first `n` of a list that a stable sort has ranked.  Leaving some elements out commutes with
the sort (`filter_insertionSort`), and what is due is shown exactly when nothing that is due is left out
(`take_shown_iff`). -/

namespace Lib

variable {α : Type}

section sorting
variable (r : α → α → Prop) [DecidableRel r]

theorem orderedInsert_of_forall {a : α} {l : List α} (h : ∀ b ∈ l, r a b) : l.orderedInsert r a = a :: l := by
  cases l with
  | nil => rfl
  | cons b l => exact List.orderedInsert_cons_of_le _ l (h b List.mem_cons_self)

theorem filter_orderedInsert [IsTrans α r] (p : α → Bool) (a : α) {l : List α} (hsorted : l.Pairwise r) :
    (l.orderedInsert r a).filter p = if p a then (l.filter p).orderedInsert r a else l.filter p := by
  induction l with
  | nil =>
      rw [List.orderedInsert_nil, List.filter_singleton, List.filter_nil, List.orderedInsert_nil,
        Bool.cond_eq_ite]
  | cons b l ih =>
      obtain ⟨hb, hl⟩ := List.pairwise_cons.mp hsorted
      by_cases hab : r a b
      · -- `a` comes first, and goes before everything that is left
        have hall : ∀ c ∈ (b :: l).filter p, r a c := by
          intro c hc
          rcases List.mem_cons.mp (List.mem_of_mem_filter hc) with rfl | hc
          · exact hab
          · exact IsTrans.trans a b c hab (hb c hc)
        rw [List.orderedInsert_cons_of_le _ l hab, orderedInsert_of_forall r hall, List.filter_cons]
      · rw [List.orderedInsert_of_not_le _ l hab, List.filter_cons, List.filter_cons, ih hl]
        split_ifs with hpb hpa hpa
        · rw [List.orderedInsert_of_not_le _ _ hab]
        · rfl
        · rfl
        · rfl

/-- **A stable sort commutes with leaving elements out.** -/
theorem filter_insertionSort [Std.Total r] [IsTrans α r] (p : α → Bool) (l : List α) :
    (l.insertionSort r).filter p = (l.filter p).insertionSort r := by
  induction l with
  | nil => rfl
  | cons a l ih =>
      rw [List.insertionSort_cons, filter_orderedInsert r p a (List.pairwise_insertionSort r l), ih,
        List.filter_cons]
      split_ifs with hpa
      · rw [List.insertionSort_cons]
      · rfl

end sorting

/-- **What is due is shown** among the first `n` if and only if nothing of it is left out. -/
theorem take_shown_iff (p : α → Bool) (l : List α) (n : ℕ) :
    (∀ a ∈ l.take n, a ∈ (l.filter p).take n) ↔ ∀ a ∈ l.take n, p a = true := by
  constructor
  · intro h a ha
    exact (List.mem_filter.mp (List.mem_of_mem_take (h a ha))).2
  · intro h a ha
    have hsplit : l.filter p = l.take n ++ (l.drop n).filter p := by
      conv_lhs => rw [← List.take_append_drop n l, List.filter_append, List.filter_eq_self.mpr h]
    rw [hsplit, List.take_append, List.take_take, min_self]
    exact List.mem_append_left _ ha

end Lib
