import JAgent.Core.RevisionGuard
import JAgent.Lib.Matching

/-! # What binding computes

The binding loop of a merge described by its inputs alone: root steps that are still to do and
new steps of the revision are matched by action, and a single failed root step that is left is
bound to a single new step that is left.  `canonicalWith` is the canonical id of a step after
the merge in these terms; `canonical_bindAliases` says that the loop computes it. -/

namespace JAgent

section binding
variable [Py] (root current revised : DagPlan) (results : Results) (aliases : Aliases)

/-- A new step and a root step have the same action. -/
def sameAction (originalId sid : String) : Bool :=
  ((stepMap revised.steps).get? sid).map stepSignature =
    ((stepMap root.steps).get? originalId).map stepSignature

/-- The root steps a new step may be bound to. -/
def replaceableIds : List String :=
  (unresolvedIds root results aliases).filter fun sid =>
    Results.holdsAt results replaceable (canonical aliases sid)

/-- The new step that is matched to a root step by its action. -/
def matchedBy : String → Option String :=
  Lib.Matching.chosen (sameAction root revised) (replacementIds root current revised)
    (replaceableIds root results aliases)

/-- The new steps that are matched to no root step. -/
def spareIds : List String :=
  Lib.Matching.spare (sameAction root revised) (replacementIds root current revised)
    (replaceableIds root results aliases)

/-- The failed root steps that no new step is matched to. -/
def unmatchedIds : List String :=
  (Lib.Matching.unmatched (sameAction root revised) (replacementIds root current revised)
    (replaceableIds root results aliases)).filter fun sid =>
      Results.holdsAt results ranAndFailed (canonical aliases sid)

/-- The new step a root step is bound to. -/
def rebound (sid : String) : Option String :=
  match spareIds root current revised results aliases,
      unmatchedIds root current revised results aliases with
  | [m], [originalId] =>
    if originalId = sid then some m else matchedBy root current revised results aliases sid
  | _, _ => matchedBy root current revised results aliases sid

/-- The canonical id of a step once the revision is merged. -/
def canonicalWith (sid : String) : String :=
  (rebound root current revised results aliases sid).getD (canonical aliases sid)

/-! ### The loop -/

/-- The state of the loop after the root steps `ids`. -/
structure BoundTo (ids : List String) (b : Binding) : Prop where
  aliases : ∀ sid, b.aliases.get? sid =
    (Lib.Matching.chosen (sameAction root revised) (replacementIds root current revised) ids sid).or
      (aliases.get? sid)
  replacements : b.replacements =
    Lib.Matching.spare (sameAction root revised) (replacementIds root current revised) ids
  originals : b.originals =
    Lib.Matching.unmatched (sameAction root revised) (replacementIds root current revised) ids

variable {root current revised results aliases} {ids : List String} {b : Binding} {sid : String}

theorem sameAction_compatible (o o' sid : String) (h : sameAction root revised o sid = true)
    (h' : sameAction root revised o' sid = true) : sameAction root revised o = sameAction root revised o' := by
  unfold sameAction at h h' ⊢
  rw [decide_eq_true_eq] at h h'
  rw [← h, ← h']

/-- A root step the loop has not seen keeps its alias. -/
theorem BoundTo.canonical (h : BoundTo root current revised aliases ids b) (hsid : sid ∉ ids) :
    canonical b.aliases sid = canonical aliases sid := by
  unfold JAgent.canonical Lib.Dict.getD
  rw [h.aliases, Lib.Matching.chosen_of_not_mem hsid, Option.none_or]

/-- One round of the loop. -/
theorem BoundTo.bindOne (h : BoundTo root current revised aliases ids b) (hsid : sid ∉ ids)
    (hr : Results.holdsAt results replaceable (JAgent.canonical aliases sid) = true) :
    BoundTo root current revised aliases (ids ++ [sid]) (bindOne root revised results b sid) := by
  have hleft : ∀ m, b.replacements.filter (sameAction root revised sid) = [m] ↔
      Lib.Matching.chosen (sameAction root revised) (replacementIds root current revised)
        (ids ++ [sid]) sid = some m := by
    intro m
    rw [h.replacements]
    exact Lib.Matching.filter_spare_eq sameAction_compatible hsid
  unfold JAgent.bindOne
  rw [h.canonical hsid, if_pos hr]
  split
  next m hm =>
    have hchosen := (hleft m).mp hm
    refine ⟨fun x => ?_, ?_, ?_⟩
    · rw [Lib.Dict.get?_set]
      by_cases hx : sid = x
      · rw [if_pos hx, ← hx, hchosen, Option.some_or]
      · rw [if_neg hx, h.aliases, Lib.Matching.chosen_append_of_ne (Ne.symm hx)]
    · rw [h.replacements, Lib.Matching.spare_append_of_some hsid hchosen]
    · rw [h.originals, Lib.Matching.unmatched_append hsid]
      simp [hchosen]
  next hm =>
    have hnone : Lib.Matching.chosen (sameAction root revised) (replacementIds root current revised)
        (ids ++ [sid]) sid = none := by
      rw [Option.eq_none_iff_forall_ne_some]
      exact fun m hc => hm m ((hleft m).mpr hc)
    refine ⟨fun x => ?_, ?_, ?_⟩
    · rw [h.aliases]
      by_cases hx : x = sid
      · rw [hx, hnone, Lib.Matching.chosen_of_not_mem hsid]
      · rw [Lib.Matching.chosen_append_of_ne hx]
    · rw [h.replacements, Lib.Matching.spare_append_of_none hsid hnone]
    · rw [h.originals, Lib.Matching.unmatched_append hsid]
      simp [hnone]

/-- The whole loop: a root step without a replaceable result is passed over. -/
theorem BoundTo.foldl (todo : List String) :
    ∀ {ids : List String} {b : Binding}, BoundTo root current revised aliases ids b →
      (ids ++ todo).Nodup →
      BoundTo root current revised aliases
        (ids ++ todo.filter fun sid => Results.holdsAt results replaceable (JAgent.canonical aliases sid))
        (todo.foldl (JAgent.bindOne root revised results) b) := by
  induction todo with
  | nil =>
      intro ids b h _
      simpa using h
  | cons sid todo ih =>
      intro ids b h hn
      have hsid : sid ∉ ids := fun hmem =>
        (List.nodup_append.mp hn).2.2 sid hmem sid List.mem_cons_self rfl
      rw [List.foldl_cons]
      cases hr : Results.holdsAt results replaceable (JAgent.canonical aliases sid) with
      | true =>
          have := ih (h.bindOne hsid hr) (by simpa using hn)
          simpa [List.filter_cons, hr] using this
      | false =>
          have hsame : JAgent.bindOne root revised results b sid = b := by
            unfold JAgent.bindOne
            rw [h.canonical hsid, hr]
            rfl
          rw [hsame, List.filter_cons, hr]
          have hsub : (ids ++ todo).Sublist (ids ++ sid :: todo) :=
            (List.Sublist.refl ids).append (List.sublist_cons_self sid todo)
          simpa using ih h (hsub.nodup hn)

theorem bindBySignature_boundTo (hn : (stepIds root.steps).Nodup) :
    BoundTo root current revised aliases (replaceableIds root results aliases)
      (bindBySignature root current revised results aliases) := by
  have h0 : BoundTo root current revised aliases []
      ⟨aliases, replacementIds root current revised, []⟩ := by
    refine ⟨fun sid => ?_, ?_, rfl⟩
    · rw [Lib.Matching.chosen_of_not_mem (List.not_mem_nil)]
      rfl
    · simp [Lib.Matching.spare, Lib.Matching.claimant]
  exact h0.foldl (unresolvedIds root results aliases) (hn.filter _)

/-- **The loop computes the matching**: the aliases after binding are given by the inputs. -/
theorem get?_bindAliases (hn : (stepIds root.steps).Nodup) :
    (bindAliases root current revised results aliases).get? sid =
      (rebound root current revised results aliases sid).or (aliases.get? sid) := by
  have h : BoundTo root current revised aliases (replaceableIds root results aliases)
    (bindBySignature root current revised results aliases) := bindBySignature_boundTo hn
  have hspare : (bindBySignature root current revised results aliases).replacements =
    spareIds root current revised results aliases := h.replacements
  have hfailed : (bindBySignature root current revised results aliases).originals.filter (fun sid =>
      Results.holdsAt results ranAndFailed
        (canonical (bindBySignature root current revised results aliases).aliases sid)) =
      unmatchedIds root current revised results aliases := by
    unfold unmatchedIds
    rw [h.originals]
    refine List.filter_congr fun x hx => ?_
    have hnone := (List.mem_filter.mp hx).2
    rw [Option.isNone_iff_eq_none] at hnone
    unfold canonical Lib.Dict.getD
    rw [h.aliases, hnone, Option.none_or]
  unfold bindAliases bindForced rebound
  rw [hfailed, hspare]
  match spareIds root current revised results aliases,
      unmatchedIds root current revised results aliases with
  | [m], [originalId] =>
      simp only [Lib.Dict.get?_set]
      by_cases hsid : originalId = sid
      · rw [if_pos hsid, if_pos hsid, Option.some_or]
      · rw [if_neg hsid, if_neg hsid]
        exact h.aliases sid
  | [], _ | _ :: _ :: _, _ | [_], [] | [_], _ :: _ :: _ => exact h.aliases sid

/-- **Canonical ids after a merge**, in terms of its inputs. -/
theorem canonical_bindAliases (hn : (stepIds root.steps).Nodup) :
    canonical (bindAliases root current revised results aliases) sid =
      canonicalWith root current revised results aliases sid := by
  unfold canonicalWith canonical Lib.Dict.getD
  rw [get?_bindAliases hn]
  cases rebound root current revised results aliases sid <;> rfl

end binding
end JAgent
