import JAgent.Execution.Local
import JAgent.Execution.PosixPath

/-! # Backends that run elsewhere

The Docker and the SSH backend know nothing of the files they work on: a path is checked as a text and put
behind the mount or the root.  The check refuses the empty path, a path that starts with a slash, and a
path with a component `..` when back-slashes count as separators too; the target is written with slashes
only.  Whatever passes stays below the mount (`carrier_targets_inside`). -/

namespace JAgent

/-- The path check that the two backends share; `refusal` is the text of the exception. -/
def carrierResolve (refusal root path : String) : Except Raised String :=
  if path = "" || isAbsolute path.toList || ((slashes path.toList).splitOn '/').contains parent then
    .error (.error "PermissionError" refusal)
  else .ok (String.ofList (rstrip '/' root.toList ++ '/' :: slashes path.toList))

/-- `DockerSandboxBackend.resolve` below the mount. -/
def dockerResolve (mount path : String) : Except Raised String :=
  carrierResolve "path escapes Docker workspace mount" mount path

/-- `RemoteSSHBackend.resolve` below the root. -/
def sshResolve (root path : String) : Except Raised String :=
  carrierResolve "path escapes SSH workspace root" root path

/-- A path below an absolute root is absolute. -/
theorem isAbsolute_below {root : List Char} (h : isAbsolute root = true) (rest : List Char) :
    isAbsolute (rstrip '/' root ++ '/' :: rest) = true := by
  have hinitial : rstrip '/' root <+: root := by
    have hsuffix := (List.dropWhile_suffix (l := root.reverse) (· == '/')).reverse
    rw [List.reverse_reverse] at hsuffix
    exact hsuffix
  obtain ⟨slashes, hroot⟩ := hinitial
  cases hstrip : rstrip '/' root with
  | nil => rfl
  | cons c cs =>
      rw [hstrip] at hroot
      rw [← hroot] at h
      exact h

/-- A path without `..`, put behind a root, leads below it. -/
theorem inside_below {root rest : List Char} (habs : isAbsolute root = true)
    (hrest : parent ∉ components rest) : Inside root (rstrip '/' root ++ '/' :: rest) := by
  have htarget := isAbsolute_below habs rest
  refine ⟨by rw [habs, htarget], ?_⟩
  unfold lexical
  rw [habs, htarget, components_append_slash, components_rstrip, Lib.Path.within_resolve_iff]
  exact ⟨components root, components rest, rfl, rfl, Lib.Path.stays_of_not_mem hrest⟩

theorem inside_of_carrierResolve {refusal root path target : String}
    (habs : isAbsolute root.toList = true) (h : carrierResolve refusal root path = .ok target) :
    Inside root.toList target.toList := by
  unfold carrierResolve at h
  split_ifs at h with hrefused
  cases h
  rw [String.toList_ofList]
  apply inside_below habs
  intro hmem
  apply hrefused
  simp only [Bool.or_eq_true, List.contains_iff_mem]
  exact .inr (List.mem_filter.mp hmem).1

/-- **Carrier paths cannot escape**: for every absolute mount or root and every path, a target that
`resolve` returns lies, resolved lexically, in the mount or root. -/
theorem carrier_targets_inside (root path target : String) (habs : isAbsolute root.toList = true) :
    (dockerResolve root path = .ok target → Inside root.toList target.toList) ∧
      (sshResolve root path = .ok target → Inside root.toList target.toList) :=
  ⟨inside_of_carrierResolve habs, inside_of_carrierResolve habs⟩

/-- A leading back-slash becomes a slash only in the target, which stays below the mount. -/
theorem back_slash_stays_inside :
    dockerResolve "/workspace/" "\\etc/./passwd" = .ok "/workspace//etc/./passwd" ∧
      Inside "/workspace/".toList "/workspace//etc/./passwd".toList := by
  have hrun : dockerResolve "/workspace/" "\\etc/./passwd" = .ok "/workspace//etc/./passwd" := by
    decide +kernel
  exact ⟨hrun, (carrier_targets_inside _ _ _ (by decide +kernel)).1 hrun⟩

end JAgent
