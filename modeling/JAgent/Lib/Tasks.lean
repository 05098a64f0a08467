import Mathlib.Data.List.Basic

/-! # Task pools

A pool is a list of tasks; a step replaces one task by its next state or adds a task at the end.  What
the tasks of a pool hold together is counted with `countP`. -/

namespace Lib
variable {α : Type} (p : α → Bool) {l : List α} {i j : ℕ} {a b : α}

/-- **A task moves on**: the count gains what its next state adds and loses what it was. -/
theorem countP_set_toNat (h : l[i]? = some a) :
    (l.set i b).countP p + (p a).toNat = l.countP p + (p b).toNat := by
  induction l generalizing i with
  | nil => simp at h
  | cons x l ih =>
      cases i with
      | zero =>
          obtain rfl : x = a := by simpa using h
          rw [List.set_cons_zero, List.countP_cons, List.countP_cons]
          cases p x <;> cases p b <;> simp
      | succ i =>
          have hrest := ih (by simpa using h)
          rw [List.set_cons_succ, List.countP_cons, List.countP_cons]
          omega

/-- A new task. -/
theorem countP_concat_toNat : (l ++ [b]).countP p = l.countP p + (p b).toNat := by
  rw [List.countP_append, List.countP_singleton]
  cases p b <;> simp

/-- A task that counts is counted. -/
theorem one_le_countP (h : a ∈ l) (ha : p a = true) : 1 ≤ l.countP p :=
  List.countP_pos_iff.mpr ⟨a, h, ha⟩

/-- What counts at most once is there at one place. -/
theorem eq_of_countP_le_one (h : l.countP p ≤ 1) (hi : l[i]? = some a) (hj : l[j]? = some b)
    (ha : p a = true) (hb : p b = true) : i = j := by
  by_contra hij
  induction l generalizing i j with
  | nil => simp at hi
  | cons x l ih =>
      rw [List.countP_cons] at h
      cases i with
      | zero =>
          obtain rfl : x = a := by simpa using hi
          cases j with
          | zero => exact hij rfl
          | succ j =>
              have hmem : b ∈ l := List.mem_of_getElem? (by simpa using hj)
              have hone := one_le_countP p hmem hb
              rw [if_pos ha] at h
              omega
      | succ i =>
          cases j with
          | zero =>
              obtain rfl : x = b := by simpa using hj
              have hmem : a ∈ l := List.mem_of_getElem? (by simpa using hi)
              have hone := one_le_countP p hmem ha
              rw [if_pos hb] at h
              omega
          | succ j =>
              exact ih (by omega) (by simpa using hi) (by simpa using hj) (by omega)

end Lib
