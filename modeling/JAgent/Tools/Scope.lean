import JAgent.Execution.PosixPath

/-! # The path rule of the scope guardrail

`ScopeGuardrail._path_within` accepts a path when the longest common path of it and an allowed directory is
that directory.  Both are compared as they are written: `..` is a component like any other, so a path that
begins with an allowed directory is accepted wherever it leads from there.

`path_scope_sound_iff` says for which paths and directories the rule is sound all the same: once the path
is at an allowed directory, every later `..` has to cancel a component that comes after it. -/

namespace JAgent

/-- The components that two lists share from the start. -/
def commonParts : List (List Char) → List (List Char) → List (List Char)
  | part :: parts, part' :: parts' => if part = part' then part :: commonParts parts parts' else []
  | _, _ => []

/-- `commonpath([a, b])`; an absolute and a relative path raise `ValueError`. -/
def commonpath (a b : List Char) : Option (List Char) :=
  if isAbsolute a = isAbsolute b then
    some (joinParts (isAbsolute a) (commonParts (components a) (components b)))
  else none

/-- `ScopeGuardrail._path_within`; on a POSIX host `os.path` and `posixpath` have the same
`commonpath`, so that both branches of the source are this comparison. -/
def pathWithin (path : String) (directories : List String) : Bool :=
  directories.any fun directory =>
    commonpath (slashes path.toList) (slashes directory.toList) = some (slashes directory.toList)

/-- The path, as it is written, begins with the directory, which is written without empty components,
`.` or a slash at the end. -/
def BeginsWith (path dir : List Char) : Prop :=
  isAbsolute dir = isAbsolute path ∧ joinParts (isAbsolute dir) (components dir) = dir ∧
    components dir <+: components path

/-- Some initial part of the path leads to the directory, and every `..` after it cancels a component
after it. -/
def SettlesIn (path dir : List Char) : Prop :=
  isAbsolute dir = isAbsolute path ∧ ∃ front tail, components path = front ++ tail ∧
    Lib.Path.resolve (isAbsolute path) parent front = lexical dir ∧ Lib.Path.Stays parent tail

theorem commonParts_initial (a b : List (List Char)) : commonParts a b <+: a := by
  induction a generalizing b with
  | nil => exact List.nil_prefix
  | cons part a ih =>
      cases b with
      | nil => exact List.nil_prefix
      | cons part' b =>
          unfold commonParts
          split_ifs with h
          · exact List.cons_prefix_cons.mpr ⟨rfl, ih b⟩
          · exact List.nil_prefix

theorem commonParts_of_initial {a b : List (List Char)} (h : b <+: a) : commonParts a b = b := by
  obtain ⟨rest, rfl⟩ := h
  induction b with
  | nil => cases rest <;> rfl
  | cons part b ih => simp [commonParts, ih]

/-- A directory is the common path exactly when the path begins with it. -/
theorem commonpath_eq_iff {path dir : List Char} : commonpath path dir = some dir ↔ BeginsWith path dir := by
  unfold commonpath BeginsWith
  split_ifs with habs
  · rw [Option.some.injEq]
    constructor
    · intro h
      have hparts : commonParts (components path) (components dir) = components dir := by
        have hread := components_joinParts (fun part hmem =>
          ne_nil_of_mem_components ((commonParts_initial (components path) (components dir)).subset hmem))
          (isAbsolute path)
        rw [h] at hread
        exact hread.symm
      rw [hparts] at h
      refine ⟨habs.symm, by rw [← habs, h], ?_⟩
      rw [← hparts]
      exact commonParts_initial _ _
    · rintro ⟨_, hspelled, hinitial⟩
      rw [commonParts_of_initial hinitial, habs, hspelled]
  · constructor
    · intro h
      cases h
    · rintro ⟨habs', _⟩
      exact absurd habs'.symm habs

theorem pathWithin_iff {path : String} {directories : List String} : pathWithin path directories = true ↔
    ∃ dir ∈ directories, BeginsWith (slashes path.toList) (slashes dir.toList) := by
  unfold pathWithin
  simp only [List.any_eq_true, decide_eq_true_eq, commonpath_eq_iff]

theorem inside_iff {path dir : List Char} : Inside dir path ↔ SettlesIn path dir := by
  have hwithin : Lib.Path.Within parent (lexical dir) (lexical path) ↔ _ := Lib.Path.within_resolve_iff
  unfold Inside SettlesIn
  rw [hwithin]

/-- **When the path rule is sound**: for every path and every list of allowed directories, exactly when the
path, if it begins with an allowed directory as it is written, settles in one. -/
theorem path_scope_sound_iff (path : String) (directories : List String) :
    (pathWithin path directories = true →
        ∃ dir ∈ directories, Inside (slashes dir.toList) (slashes path.toList)) ↔
      ((∃ dir ∈ directories, BeginsWith (slashes path.toList) (slashes dir.toList)) →
        ∃ dir ∈ directories, SettlesIn (slashes path.toList) (slashes dir.toList)) := by
  rw [pathWithin_iff]
  simp only [inside_iff]

/-- A path that climbs out of the directory it begins with is accepted. -/
theorem climbing_path_accepted : pathWithin "/data/../etc/passwd" ["/data"] = true ∧
    ¬∃ dir ∈ ["/data"], Inside (slashes dir.toList) (slashes "/data/../etc/passwd".toList) := by
  refine ⟨by decide +kernel, ?_⟩
  rintro ⟨dir, hdir, _, rest, hrest, _⟩
  rw [List.mem_singleton] at hdir
  subst hdir
  have hpath : lexical (slashes "/data/../etc/passwd".toList) = ["etc".toList, "passwd".toList] := by
    decide +kernel
  have hdir : lexical (slashes "/data".toList) = ["data".toList] := by decide +kernel
  rw [hpath, hdir] at hrest
  have hhead := congrArg List.head? hrest
  simp at hhead

end JAgent
