import Mathlib.Algebra.Order.Group.Defs
import Mathlib.Data.List.Sublists

/-! # Sliding windows

Times of events, the ones that are younger than a window (`recent`), and sets of times that span less than
the window (`Narrow`), such as its half-open intervals.

A limiter that admits an event only while fewer than `m` recent ones are known keeps every narrow set at
`m` or below (`length_filter_append`), as long as what it knows contains what is recent.  `recent` shrinks
as time goes by (`recent_sublist_of_le`), so old times can be forgotten. -/

namespace Lib.Window

variable {α : Type} [AddCommGroup α] [LinearOrder α]

/-- The times younger than `w` at `now`. -/
def recent (w now : α) (times : List α) : List α := times.filter fun t => now - t < w

/-- The times in `[a, a + w)`. -/
def fromUntil (a w t : α) : Bool := a ≤ t && t < a + w

/-- The times in `(a, a + w]`. -/
def afterUpTo (a w t : α) : Bool := a < t && t ≤ a + w

/-- Any two times of the set differ by less than `w`. -/
def Narrow (w : α) (p : α → Bool) : Prop := ∀ t t', p t = true → p t' = true → t' - t < w

theorem mem_recent {w now t : α} {times : List α} : t ∈ recent w now times ↔ t ∈ times ∧ now - t < w := by
  unfold recent
  rw [List.mem_filter, decide_eq_true_iff]

/-- A sublist all of whose times are recent survives forgetting. -/
theorem sublist_recent {w now : α} {kept times : List α} (h : kept.Sublist times)
    (hrecent : ∀ t ∈ kept, now - t < w) : kept.Sublist (recent w now times) := by
  have hself : recent w now kept = kept :=
    List.filter_eq_self.mpr fun t ht => decide_eq_true (hrecent t ht)
  rw [← hself]
  exact h.filter _

/-- No set is narrower than an empty window. -/
theorem Narrow.filter_eq_nil {w : α} {p : α → Bool} (hp : Narrow w p) (h : w ≤ 0) (times : List α) :
    times.filter p = [] := by
  rw [List.filter_eq_nil_iff]
  intro t _ ht
  have hlt := hp t t ht ht
  rw [sub_self] at hlt
  exact absurd hlt (not_lt_of_ge h)

theorem Narrow.filter_sublist {w now : α} {p : α → Bool} (hp : Narrow w p) (hnow : p now = true)
    (times : List α) : (times.filter p).Sublist (recent w now times) := by
  apply List.monotone_filter_right
  intro t ht
  exact decide_eq_true (hp t now ht hnow)

/-- **One more event**: if fewer than `m` known times were recent when it happened, no narrow set exceeds
`m`. -/
theorem Narrow.length_filter_append {w now : α} {p : α → Bool} (hp : Narrow w p) {times : List α} {m : ℕ}
    (hrecent : (recent w now times).length < m) (h : (times.filter p).length ≤ m) :
    ((times ++ [now]).filter p).length ≤ m := by
  rw [List.filter_append, List.length_append, List.filter_singleton]
  cases hnow : p now with
  | true =>
      have hle := (hp.filter_sublist hnow times).length_le
      show _ + 1 ≤ m
      omega
  | false => exact h

variable [IsOrderedAddMonoid α]

theorem narrow_fromUntil (a w : α) : Narrow w (fromUntil a w) := by
  intro t t' ht ht'
  unfold fromUntil at ht ht'
  rw [Bool.and_eq_true, decide_eq_true_iff, decide_eq_true_iff] at ht ht'
  rw [sub_lt_iff_lt_add']
  exact lt_of_lt_of_le ht'.2 (add_le_add_left ht.1 w)

theorem narrow_afterUpTo (a w : α) : Narrow w (afterUpTo a w) := by
  intro t t' ht ht'
  unfold afterUpTo at ht ht'
  rw [Bool.and_eq_true, decide_eq_true_iff, decide_eq_true_iff] at ht ht'
  rw [sub_lt_iff_lt_add']
  exact lt_of_le_of_lt ht'.2 (add_lt_add_left ht.1 w)

theorem recent_sublist_of_le {w now later : α} (h : now ≤ later) (times : List α) :
    (recent w later times).Sublist (recent w now times) := by
  apply List.monotone_filter_right
  intro t ht
  rw [decide_eq_true_iff] at ht ⊢
  exact lt_of_le_of_lt (sub_le_sub_right h t) ht

end Lib.Window
