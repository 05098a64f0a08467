import Mathlib.Data.List.TakeWhile
import JAgent.Value
import JAgent.Lib.Paths

/-! # Paths as text

A path is read as POSIX reads it: it is cut at the slashes, empty components and `.` count for nothing, and
a path that starts with a slash starts at the root.  Code that also takes back-slashes for separators
replaces them first (`slashes`).

`Inside dir path` is the meaning of a path restriction: with all `..` resolved lexically (`Lib.Path`), the
path is the directory or lies below it. -/

namespace JAgent

/-- `path.replace("\\", "/")`. -/
def slashes (path : List Char) : List Char := path.map fun c => if c = '\\' then '/' else c

/-- `path.startswith("/")`. -/
def isAbsolute (path : List Char) : Bool := path.head? = some '/'

/-- The components of a path; `..` is kept. -/
def components (path : List Char) : List (List Char) :=
  (path.splitOn '/').filter fun part => part ≠ [] && part ≠ ['.']

/-- The component for the directory above. -/
def parent : List Char := ['.', '.']

/-- A path with `.` and `..` resolved lexically. -/
def lexical (path : List Char) : List (List Char) :=
  Lib.Path.resolve (isAbsolute path) parent (components path)

/-- The path is the directory or lies below it. -/
def Inside (dir path : List Char) : Prop :=
  isAbsolute dir = isAbsolute path ∧ Lib.Path.Within parent (lexical dir) (lexical path)

/-! ### Components -/

theorem components_append_slash (front rest : List Char) :
    components (front ++ '/' :: rest) = components front ++ components rest := by
  unfold components
  rw [List.splitOn_append_cons_self, List.filter_append]

theorem components_slashes (n : ℕ) : components (List.replicate n '/') = [] := by
  induction n with
  | zero => rfl
  | succ n ih =>
      have hsplit : List.replicate (n + 1) '/' = [] ++ '/' :: List.replicate n '/' := rfl
      rw [hsplit, components_append_slash, ih]
      rfl

/-- Slashes at the end of a path change nothing. -/
theorem components_rstrip (path : List Char) : components (rstrip '/' path) = components path := by
  have hpath : ∃ n, path = rstrip '/' path ++ List.replicate n '/' := by
    obtain ⟨n, hn⟩ : ∃ n, path.reverse.takeWhile (· == '/') = List.replicate n '/' := by
      refine ⟨(path.reverse.takeWhile (· == '/')).length, List.eq_replicate_iff.mpr ⟨rfl, ?_⟩⟩
      intro c hc
      simpa using List.mem_takeWhile_imp hc
    refine ⟨n, ?_⟩
    have hsplit := List.takeWhile_append_dropWhile (p := (· == '/')) (l := path.reverse)
    rw [hn] at hsplit
    have hrev := congrArg List.reverse hsplit
    rw [List.reverse_append, List.reverse_replicate, List.reverse_reverse] at hrev
    exact hrev.symm
  obtain ⟨n, hn⟩ := hpath
  cases n with
  | zero =>
      rw [List.replicate_zero, List.append_nil] at hn
      rw [← hn]
  | succ n =>
      rw [List.replicate_succ] at hn
      have hcomponents := congrArg components hn
      rw [components_append_slash, components_slashes, List.append_nil] at hcomponents
      exact hcomponents.symm

theorem slash_not_mem_of_mem_splitOn {path part : List Char} (h : part ∈ path.splitOn '/') : '/' ∉ part := by
  induction path generalizing part with
  | nil =>
      rw [List.splitOn_nil, List.mem_singleton] at h
      simp [h]
  | cons c path ih =>
      rw [List.splitOn_cons_eq_if_modifyHead] at h
      split_ifs at h with hc
      · rcases List.mem_cons.mp h with rfl | hrest
        · simp
        · exact ih hrest
      · obtain ⟨first, rest, hsplit⟩ := List.exists_cons_of_ne_nil (List.splitOn_ne_nil '/' path)
        rw [hsplit, List.modifyHead_cons] at h
        rcases List.mem_cons.mp h with rfl | hrest
        · have hfirst : '/' ∉ first := ih (hsplit ▸ List.mem_cons_self)
          have hne : '/' ≠ c := fun he => hc (beq_iff_eq.mpr he.symm)
          rw [List.mem_cons, not_or]
          exact ⟨hne, hfirst⟩
        · exact ih (hsplit ▸ List.mem_cons_of_mem _ hrest)

theorem ne_nil_of_mem_components {path part : List Char} (h : part ∈ components path) :
    part ≠ [] ∧ part ≠ ['.'] ∧ '/' ∉ part := by
  obtain ⟨hmem, hpart⟩ := List.mem_filter.mp h
  simp only [ne_eq, Bool.and_eq_true, decide_eq_true_eq] at hpart
  exact ⟨hpart.1, hpart.2, slash_not_mem_of_mem_splitOn hmem⟩

/-- The path of given components. -/
def joinParts (absolute : Bool) (parts : List (List Char)) : List Char :=
  (if absolute then ['/'] else []) ++ ['/'].intercalate parts

/-- Components are read back. -/
theorem components_joinParts {parts : List (List Char)}
    (h : ∀ part ∈ parts, part ≠ [] ∧ part ≠ ['.'] ∧ '/' ∉ part) (absolute : Bool) :
    components (joinParts absolute parts) = parts := by
  have hjoin : components (['/'].intercalate parts) = parts := by
    cases hparts : parts with
    | nil => rfl
    | cons part rest =>
        unfold components
        rw [← hparts, List.splitOn_intercalate '/' (fun p hp => (h p hp).2.2) (by simp [hparts]),
          List.filter_eq_self]
        intro p hp
        simp [(h p hp).1, (h p hp).2.1]
  cases absolute with
  | false => exact hjoin
  | true =>
      show components ([] ++ '/' :: ['/'].intercalate parts) = parts
      rw [components_append_slash, hjoin]
      rfl

end JAgent
