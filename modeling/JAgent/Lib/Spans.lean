import Mathlib.Data.List.DropRight
import Mathlib.Data.List.Infix
import Mathlib.Data.List.TakeWhile

/-! # Parts of a text

Three ways to cut a part out of a list: what is left when the ends are trimmed, what stands before the last
occurrence of a separator, and the span from the first opening mark to the last closing one.  For each of
them a theorem says what is cut out of a text that is built around the part. -/

namespace Lib

variable {α : Type}

/-! ### Trimming -/

section trim
variable (p : α → Bool)

/-- The list without the elements at its ends that satisfy `p`. -/
def trim (l : List α) : List α := (l.dropWhile p).rdropWhile p

variable {p}

theorem dropWhile_append_cons {front rest : List α} {a : α} (h : ∀ x ∈ front, p x = true) (ha : p a = false) :
    (front ++ a :: rest).dropWhile p = a :: rest := by
  rw [List.dropWhile_append_of_pos h, List.dropWhile_cons_of_neg (by simp [ha])]

/-- What stands behind the last element that stays loses only elements of its end. -/
theorem rdropWhile_append_cons {b : α} (hb : p b = false) (mid back : List α) :
    (mid ++ b :: back).rdropWhile p = mid ++ b :: back.rdropWhile p := by
  induction back using List.reverseRecOn with
  | nil =>
      rw [List.rdropWhile_concat_neg _ _ _ (by simp [hb])]
      rfl
  | append_singleton back c ih =>
      have hassoc : mid ++ b :: (back ++ [c]) = (mid ++ b :: back) ++ [c] := by
        rw [List.append_assoc]
        rfl
      rw [hassoc]
      by_cases hc : p c = true
      · rw [List.rdropWhile_concat_pos _ _ _ hc, List.rdropWhile_concat_pos _ _ _ hc, ih]
      · rw [List.rdropWhile_concat_neg _ _ _ hc, List.rdropWhile_concat_neg _ _ _ hc, hassoc]

/-- **Trimming keeps what stands between two elements that stay**. -/
theorem trim_append {a b : α} (ha : p a = false) (hb : p b = false) (front mid back : List α) :
    trim p (front ++ a :: (mid ++ b :: back)) =
      front.dropWhile p ++ a :: (mid ++ b :: back.rdropWhile p) := by
  have hfront : (front ++ a :: (mid ++ b :: back)).dropWhile p =
      front.dropWhile p ++ a :: (mid ++ b :: back) := by
    induction front with
    | nil =>
        rw [List.nil_append, List.dropWhile_cons_of_neg (by simp [ha])]
        rfl
    | cons c front ih =>
        rw [List.cons_append]
        by_cases hc : p c = true
        · rw [List.dropWhile_cons_of_pos hc, List.dropWhile_cons_of_pos hc, ih]
        · rw [List.dropWhile_cons_of_neg hc, List.dropWhile_cons_of_neg hc, List.cons_append]
  have hassoc : ∀ rest, front.dropWhile p ++ a :: (mid ++ b :: rest) =
      (front.dropWhile p ++ a :: mid) ++ b :: rest := by
    intro rest
    rw [List.append_assoc, List.cons_append]
  rw [trim, hfront, hassoc, rdropWhile_append_cons hb, hassoc]

end trim

/-! ### The last separator -/

section separator
variable [DecidableEq α] (sep : List α)

/-- What stands before the last occurrence of the separator. -/
def beforeLast : List α → Option (List α)
  | [] => if sep = [] then some [] else none
  | a :: l => match beforeLast l with
    | some front => some (a :: front)
    | none => if sep.isPrefixOf (a :: l) then some [] else none

variable {sep}

/-- There is nothing before the last separator only where there is none. -/
theorem beforeLast_eq_none {l : List α} (h : ¬sep <:+: l) : beforeLast sep l = none := by
  induction l with
  | nil =>
      rw [beforeLast, if_neg]
      rintro rfl
      exact h (List.nil_infix)
  | cons a l ih =>
      rw [beforeLast, ih fun hl => h (hl.trans (List.suffix_cons a l).isInfix)]
      show (if _ then _ else _) = _
      rw [if_neg]
      intro hp
      exact h (List.isPrefixOf_iff_prefix.mp hp).isInfix

/-- **The part before the last separator**, where none begins behind it. -/
theorem beforeLast_append {a : α} {tail back : List α} (hsep : sep = a :: tail)
    (h : ¬sep <:+: tail ++ back) (front : List α) : beforeLast sep (front ++ (sep ++ back)) = some front := by
  induction front with
  | nil =>
      have hnone := beforeLast_eq_none h
      rw [List.nil_append, hsep, List.cons_append, beforeLast, ← hsep, hnone]
      show (if _ then _ else _) = _
      rw [if_pos]
      rw [List.isPrefixOf_iff_prefix, hsep]
      exact ⟨back, List.cons_append⟩
  | cons b front ih =>
      rw [List.cons_append, beforeLast, ih]

end separator

/-! ### The outermost span -/

section span
variable [DecidableEq α] (opening closing : α)

/-- From the first opening mark to the last closing mark behind it. -/
def outermost (l : List α) : Option (List α) :=
  match (l.dropWhile (· ≠ opening)).rdropWhile (· ≠ closing) with
  | [] => none
  | span => some span

variable {opening closing}

/-- **The outermost span** of a text with no opening mark before it and no closing mark behind it. -/
theorem outermost_append {front mid back : List α} (hfront : opening ∉ front) (hback : closing ∉ back) :
    outermost opening closing (front ++ opening :: (mid ++ closing :: back)) =
      some (opening :: (mid ++ [closing])) := by
  have hfront' : ∀ x ∈ front, decide (x ≠ opening) = true := by
    intro x hx
    apply decide_eq_true
    rintro rfl
    exact hfront hx
  have hback' : back.rdropWhile (fun x => decide (x ≠ closing)) = [] := by
    rw [List.rdropWhile_eq_nil_iff]
    intro x hx
    apply decide_eq_true
    rintro rfl
    exact hback hx
  have hcut := rdropWhile_append_cons (p := fun x => decide (x ≠ closing)) (b := closing) (by simp)
    (opening :: mid) back
  rw [hback', List.cons_append] at hcut
  rw [outermost, dropWhile_append_cons hfront' (by simp), hcut]
  rfl

end span

end Lib
