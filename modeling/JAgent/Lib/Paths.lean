import Mathlib.Data.List.Basic
import Mathlib.Data.List.Infix

/-! # Lexical resolution of paths

A path is a list of components over a type of names with a distinguished name `up`.  Resolving it from
left to right keeps a stack of the directories on the way: a name is pushed, and `up` removes the last
name.  Above the start there is nothing to remove; a rooted path stays at the root, any other path keeps
the `up`.

A path lies within a directory when it extends the directory by names alone (`Within`).  The main result
says where this comes from (`within_resolve_iff`): some initial part of the path leads to the directory,
and what follows never climbs above the place where it starts. -/

namespace Lib.Path
variable {κ : Type} [DecidableEq κ] (rooted : Bool) (up : κ)

/-- One component. -/
def push (stack : List κ) (c : κ) : List κ :=
  if c = up then
    match stack.getLast? with
    | none => if rooted then [] else [up]
    | some d => if d = up then stack ++ [up] else stack.dropLast
  else stack ++ [c]

/-- Follow the components of a path. -/
def walk (stack cs : List κ) : List κ := cs.foldl (push rooted up) stack

/-- Resolve a path. -/
def resolve (cs : List κ) : List κ := walk rooted up [] cs

/-- The path is the directory, or lies below it. -/
def Within (dir p : List κ) : Prop := ∃ rest, p = dir ++ rest ∧ up ∉ rest

/-- The path never climbs above the place where it starts. -/
def Stays (cs : List κ) : Prop := up ∉ resolve false up cs

variable {rooted up} {stack cs dir rest : List κ} {c : κ}

theorem push_name (h : c ≠ up) : push rooted up stack c = stack ++ [c] := if_neg h

/-- After a name, `up` removes it. -/
theorem push_up_of_name (h : c ≠ up) : push rooted up (stack ++ [c]) up = stack := by
  simp [push, h]

theorem walk_append (stack front tail : List κ) :
    walk rooted up stack (front ++ tail) = walk rooted up (walk rooted up stack front) tail :=
  List.foldl_append

theorem walk_singleton : walk rooted up stack [c] = push rooted up stack c := rfl

theorem resolve_append_singleton : resolve rooted up (cs ++ [c]) = push rooted up (resolve rooted up cs) c := by
  unfold resolve
  rw [walk_append, walk_singleton]

/-- A path that has climbed once has climbed for good. -/
theorem mem_push_up (h : up ∈ stack) : up ∈ push rooted up stack c := by
  by_cases hc : c = up
  · obtain ⟨front, d, rfl⟩ := List.eq_nil_or_concat' stack |>.resolve_left (List.ne_nil_of_mem h)
    subst hc
    by_cases hd : d = c
    · simp [push, hd]
    · rw [push_up_of_name hd]
      rcases List.mem_append.mp h with hf | hd'
      · exact hf
      · exact absurd (List.mem_singleton.mp hd').symm hd
  · rw [push_name hc]
    exact List.mem_append_left _ h

/-- A path that stays leads below every place it is followed from. -/
theorem walk_of_stays (h : Stays up cs) : walk rooted up stack cs = stack ++ resolve false up cs := by
  induction cs using List.reverseRecOn with
  | nil => simp [walk, resolve]
  | append_singleton cs c ih =>
      unfold Stays at h
      rw [resolve_append_singleton] at h ⊢
      have hstays : Stays up cs := fun hmem => h (mem_push_up hmem)
      rw [walk_append, walk_singleton, ih hstays]
      by_cases hc : c = up
      · subst hc
        rcases List.eq_nil_or_concat' (resolve false c cs) with hnil | ⟨front, d, hlast⟩
        · rw [hnil] at h
          simp [push] at h
        · have hd : d ≠ c := by
            rintro rfl
            apply hstays
            rw [hlast]
            simp
          rw [hlast, push_up_of_name hd, ← List.append_assoc, push_up_of_name hd]
      · rw [push_name hc, push_name hc, List.append_assoc]

/-- A path without `up` stays as it is. -/
theorem resolve_of_not_mem (h : up ∉ cs) : resolve rooted up cs = cs := by
  induction cs using List.reverseRecOn with
  | nil => rfl
  | append_singleton cs c ih =>
      rw [List.mem_append, not_or, List.mem_singleton] at h
      rw [resolve_append_singleton, ih h.1, push_name (Ne.symm h.2)]

theorem stays_of_not_mem (h : up ∉ cs) : Stays up cs := by
  unfold Stays
  rw [resolve_of_not_mem h]
  exact h

/-- The last time the path is at the directory. -/
theorem exists_cut (h : resolve rooted up cs = dir ++ rest) (hrest : up ∉ rest) :
    ∃ front tail, cs = front ++ tail ∧ resolve rooted up front = dir ∧ resolve false up tail = rest := by
  induction cs using List.reverseRecOn generalizing rest with
  | nil =>
      obtain ⟨rfl, rfl⟩ := List.append_eq_nil_iff.mp h.symm
      exact ⟨[], [], rfl, rfl, rfl⟩
  | append_singleton cs c ih =>
      rcases List.eq_nil_or_concat' rest with rfl | ⟨names, x, rfl⟩
      · exact ⟨cs ++ [c], [], by simp, by rw [h, List.append_nil], rfl⟩
      rw [resolve_append_singleton, ← List.append_assoc] at h
      rw [List.mem_append, not_or, List.mem_singleton] at hrest
      by_cases hc : c = up
      · subst hc
        -- the component removes a name: before it, the path was one name further below
        have hbefore : ∃ d, d ≠ c ∧ resolve rooted c cs = dir ++ (names ++ [x] ++ [d]) := by
          rcases List.eq_nil_or_concat' (resolve rooted c cs) with hnil | ⟨front, d, hlast⟩
          · rw [hnil] at h
            cases rooted with
            | true => simp [push] at h
            | false =>
                have hpush : push false c [] c = [] ++ [c] := by simp [push]
                rw [hpush] at h
                exact absurd (List.singleton_inj.mp (List.append_inj' h rfl).2) hrest.2
          · by_cases hd : d = c
            · have hpush : push rooted c (front ++ [c]) c = front ++ [c] ++ [c] := by simp [push]
              rw [hlast, hd, hpush] at h
              exact absurd (List.singleton_inj.mp (List.append_inj' h rfl).2) hrest.2
            · refine ⟨d, hd, ?_⟩
              rw [hlast, push_up_of_name hd] at h
              rw [hlast, h]
              simp
        obtain ⟨d, hd, hbefore⟩ := hbefore
        have hmem : c ∉ names ++ [x] ++ [d] := by
          simp only [List.mem_append, List.mem_singleton, not_or]
          exact ⟨hrest, Ne.symm hd⟩
        obtain ⟨front, tail, rfl, hfront, htail⟩ := ih hbefore hmem
        refine ⟨front, tail ++ [c], by simp, hfront, ?_⟩
        rw [resolve_append_singleton, htail, push_up_of_name hd]
      · rw [push_name hc] at h
        obtain ⟨hcs, hx⟩ := List.append_inj' h rfl
        obtain ⟨front, tail, rfl, hfront, htail⟩ := ih hcs hrest.1
        refine ⟨front, tail ++ [c], by simp, hfront, ?_⟩
        rw [resolve_append_singleton, htail, push_name hc, hx]

/-- **When a path lies within a directory**: an initial part of it leads there, and the rest stays. -/
theorem within_resolve_iff : Within up dir (resolve rooted up cs) ↔
    ∃ front tail, cs = front ++ tail ∧ resolve rooted up front = dir ∧ Stays up tail := by
  constructor
  · rintro ⟨rest, hrest, hnames⟩
    obtain ⟨front, tail, hcs, hfront, htail⟩ := exists_cut hrest hnames
    refine ⟨front, tail, hcs, hfront, ?_⟩
    unfold Stays
    rw [htail]
    exact hnames
  · rintro ⟨front, tail, rfl, rfl, hstays⟩
    refine ⟨resolve false up tail, ?_, hstays⟩
    unfold resolve
    rw [walk_append]
    exact walk_of_stays hstays

end Lib.Path
