import Mathlib

/-! # Counting rows and counting groups

A table is a list of rows, each with a key; the rows of one key form a group.  Counting the rows with a
property is an aggregate query, counting the groups with a property takes a pass over each group.  Where
a group with the property has at least one such row, the aggregate stands for the number of groups
exactly when such a group has one such row and the other groups have none
(`countP_eq_card_iff`). -/

namespace Lib.Counting
variable {α κ : Type} [DecidableEq κ] (key : α → κ) {p : α → Bool}

/-- The rows with a property in the group of a key. -/
def inGroup (rows : List α) (p : α → Bool) (k : κ) : ℕ := (rows.filter fun a => key a = k).countP p

variable {key} {rows : List α} {ids : Finset κ}

theorem inGroup_cons (a : α) (k : κ) :
    inGroup key (a :: rows) p k = inGroup key rows p k + if key a = k ∧ p a = true then 1 else 0 := by
  by_cases hk : key a = k
  · simp [inGroup, hk, List.countP_cons]
  · simp [inGroup, hk]

/-- The rows are those of the groups together. -/
theorem countP_eq_sum (h : ∀ a ∈ rows, key a ∈ ids) :
    rows.countP p = ∑ k ∈ ids, inGroup key rows p k := by
  induction rows with
  | nil => simp [inGroup]
  | cons a rows ih =>
      rw [List.forall_mem_cons] at h
      simp only [inGroup_cons]
      rw [Finset.sum_add_distrib, ← ih h.2, List.countP_cons]
      congr 1
      by_cases hp : p a = true
      · simp [hp, h.1]
      · simp [hp]

/-- **The rows stand for the groups** exactly when each group that counts has one such row and no other
group has any. -/
theorem countP_eq_card_iff (h : ∀ a ∈ rows, key a ∈ ids) (q : κ → Bool)
    (hq : ∀ k ∈ ids, q k = true → 1 ≤ inGroup key rows p k) :
    rows.countP p = (ids.filter fun k => q k = true).card ↔
      ∀ k ∈ ids, inGroup key rows p k = if q k = true then 1 else 0 := by
  rw [countP_eq_sum h, Finset.card_filter]
  have hle : ∀ k ∈ ids, (if q k = true then 1 else 0) ≤ inGroup key rows p k := by
    intro k hk
    split_ifs with hqk
    · exact hq k hk hqk
    · exact Nat.zero_le _
  have hiff := Finset.sum_eq_sum_iff_of_le hle
  constructor
  · intro heq k hk
    exact (hiff.mp heq.symm k hk).symm
  · intro heq
    exact (hiff.mpr fun k hk => (heq k hk).symm).symm

end Lib.Counting
