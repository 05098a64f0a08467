import Mathlib.Data.List.Basic

/-! # A list that is read by index while it changes

A loop reads a list by an index that goes up, and between two reads others append to the list and remove
elements from it.  The elements in front of the index have been passed.

An element that is appended does not pass another one (`mem_take_concat`).  An element that is removed from
in front of the index lets the next one pass without being read, and no other (`mem_take_filter_ne`).  The
next read passes what it skips and what it finds (`take_seek`). -/

namespace Lib

variable {α : Type}

/-- The first element from here on that is looked for, with its index. -/
def seek (p : α → Bool) : ℕ → List α → Option (ℕ × α)
  | _, [] => none
  | i, a :: l => if p a then some (i, a) else seek p (i + 1) l

theorem seek_eq_none {p : α → Bool} {n : ℕ} {l : List α} (h : seek p n l = none) : ∀ a ∈ l, p a = false := by
  induction l generalizing n with
  | nil => exact fun a ha => absurd ha List.not_mem_nil
  | cons a l ih =>
      rw [seek] at h
      split_ifs at h with hp
      exact List.forall_mem_cons.mpr ⟨Bool.eq_false_iff.mpr hp, ih h⟩

theorem seek_eq_some {p : α → Bool} {n i : ℕ} {l : List α} {a : α} (h : seek p n l = some (i, a)) :
    p a = true ∧ ∃ skipped rest, l = skipped ++ a :: rest ∧ i = n + skipped.length ∧
      ∀ b ∈ skipped, p b = false := by
  induction l generalizing n with
  | nil => cases h
  | cons b l ih =>
      rw [seek] at h
      split_ifs at h with hp
      · cases h
        exact ⟨hp, [], l, rfl, rfl, fun c hc => absurd hc List.not_mem_nil⟩
      · obtain ⟨hpa, skipped, rest, rfl, rfl, hskipped⟩ := ih h
        refine ⟨hpa, b :: skipped, rest, rfl, ?_, ?_⟩
        · rw [List.length_cons]
          omega
        · exact List.forall_mem_cons.mpr ⟨Bool.eq_false_iff.mpr hp, hskipped⟩

/-- **What a read passes**: the elements it skips and the one it finds. -/
theorem take_seek {p : α → Bool} {n i : ℕ} {l : List α} {a : α} (h : seek p n (l.drop n) = some (i, a)) :
    p a = true ∧ ∃ skipped rest, l.drop n = skipped ++ a :: rest ∧ l.take (i + 1) = l.take n ++ skipped ++ [a] ∧
      ∀ b ∈ skipped, p b = false := by
  obtain ⟨hpa, skipped, rest, hdrop, rfl, hskipped⟩ := seek_eq_some h
  refine ⟨hpa, skipped, rest, hdrop, ?_, hskipped⟩
  rw [Nat.add_assoc, List.take_add, hdrop, List.append_assoc]
  congr 1
  rw [List.take_length_add_append]
  rfl

/-- What is appended does not let another element pass. -/
theorem mem_take_concat {l : List α} {a b : α} {n : ℕ} (hne : a ≠ b) :
    a ∈ (l ++ [b]).take n ↔ a ∈ l.take n := by
  rw [List.take_append, List.mem_append]
  refine or_iff_left fun hmem => ?_
  exact hne (List.mem_singleton.mp (List.mem_of_mem_take hmem))

/-- **What is removed from in front of the index** lets the next element pass. -/
theorem mem_take_filter_ne [DecidableEq α] {l : List α} (hl : l.Nodup) {a b : α} (hne : a ≠ b) (n : ℕ) :
    a ∈ (l.filter (· ≠ b)).take n ↔ a ∈ l.take n ∨ b ∈ l.take n ∧ l[n]? = some a := by
  induction l generalizing n with
  | nil => simp
  | cons x l ih =>
      obtain ⟨hx, hl⟩ := List.nodup_cons.mp hl
      cases n with
      | zero => simp
      | succ n =>
          rw [List.take_succ_cons, List.getElem?_cons_succ, List.mem_cons, List.mem_cons]
          by_cases hxb : x = b
          · -- the element itself is removed: all behind it move up
            subst hxb
            have hself : l.filter (· ≠ x) = l := by
              rw [List.filter_eq_self]
              intro y hy
              exact decide_eq_true fun hyx => hx (hyx ▸ hy)
            rw [List.filter_cons_of_neg (by simp), hself, List.take_add_one, List.mem_append,
              Option.mem_toList]
            simp [hne]
          · have hkeep : (x :: l).filter (· ≠ b) = x :: l.filter (· ≠ b) :=
              List.filter_cons_of_pos (decide_eq_true hxb)
            rw [hkeep, List.take_succ_cons, List.mem_cons, ih hl]
            by_cases hax : a = x
            · simp [hax]
            · simp [hax, Ne.symm hxb]

end Lib
