import Mathlib.Data.List.Infix
import Mathlib.Data.List.TakeWhile

/-! # Streaks

The streak of a list is the longest run at its end of elements that satisfy a condition.  A counter that is reset
by every other element and otherwise counts up is the streak of what it has seen (`streak_append_pos`,
`streak_append_neg`).  If the streak is kept at or below a bound while the list grows, no run of such elements in
the list, wherever it stands, is longer than the bound (`Bounded.append`). -/

namespace Lib

variable {α : Type} (p : α → Bool)

/-- How many elements at the end satisfy the condition. -/
def streak (l : List α) : ℕ := (l.reverse.takeWhile p).length

/-- No run of elements that satisfy the condition is longer than `n`. -/
def Bounded (n : ℕ) (l : List α) : Prop := ∀ block, block <:+: l → (∀ a ∈ block, p a = true) → block.length ≤ n

variable {p} {l : List α} {a : α}

theorem streak_nil : streak p [] = 0 := rfl

theorem streak_append_pos (h : p a = true) : streak p (l ++ [a]) = streak p l + 1 := by
  rw [streak, List.reverse_append, List.reverse_singleton, List.singleton_append, List.takeWhile_cons_of_pos h,
    List.length_cons]
  rfl

theorem streak_append_neg (h : p a = false) : streak p (l ++ [a]) = 0 := by
  rw [streak, List.reverse_append, List.reverse_singleton, List.singleton_append,
    List.takeWhile_cons_of_neg (by simp [h]), List.length_nil]

/-- A run at the end is not longer than the streak. -/
theorem length_le_streak {block : List α} (hsuffix : block <:+ l) (hall : ∀ a ∈ block, p a = true) :
    block.length ≤ streak p l := by
  obtain ⟨front, rfl⟩ := hsuffix
  rw [streak, List.reverse_append, List.takeWhile_append_of_pos (by simpa using hall), List.length_append,
    List.length_reverse]
  omega

theorem Bounded.nil (n : ℕ) : Bounded p n [] := by
  intro block hblock _
  rw [List.eq_nil_of_infix_nil hblock]
  exact Nat.zero_le n

/-- **A list stays bounded while its streak does.** -/
theorem Bounded.append {n : ℕ} (h : Bounded p n l) (hstreak : streak p (l ++ [a]) ≤ n) : Bounded p n (l ++ [a]) := by
  intro block hblock hall
  obtain ⟨front, back, heq⟩ := hblock
  cases back using List.reverseRecOn with
  | nil =>
      rw [List.append_nil] at heq
      exact le_trans (length_le_streak ⟨front, heq⟩ hall) hstreak
  | append_singleton back c =>
      -- the run ends before the last element
      rw [← List.append_assoc] at heq
      obtain ⟨hinit, -⟩ := List.append_inj' heq rfl
      exact h block ⟨front, back, hinit⟩ hall

end Lib
