import Mathlib.Data.List.Basic

/-! # Greedy matching

Keys are taken one after the other, and each gets the only remaining candidate that fits it.
What comes out is described without the loop: a key is given its only fitting candidate
(`onlyMatch`), unless an earlier key has claimed it (`claimant`).  The rules for one more key
say that the loop and the description agree, provided that two keys fitting one candidate fit
the same candidates. -/

namespace Lib.Matching

variable {K C : Type} (fits : K → C → Bool) (cands : List C)

/-- The only candidate that fits a key. -/
def onlyMatch (k : K) : Option C :=
  match cands.filter (fits k) with
  | [c] => some c
  | _ => none

section onlyMatch
variable {fits cands} {k : K} {c : C}

theorem onlyMatch_eq_some : onlyMatch fits cands k = some c ↔ cands.filter (fits k) = [c] := by
  unfold onlyMatch
  split
  next c' h => simp [h]
  next h => simpa using h c

theorem fits_of_onlyMatch (h : onlyMatch fits cands k = some c) : fits k c = true := by
  have hmem : c ∈ cands.filter (fits k) := by
    rw [onlyMatch_eq_some.mp h]
    exact List.mem_singleton.mpr rfl
  exact (List.mem_filter.mp hmem).2

end onlyMatch

variable [DecidableEq C]

/-- The first key that has the candidate as its only match. -/
def claimant (ks : List K) (c : C) : Option K := ks.find? fun k => onlyMatch fits cands k = some c

/-- The candidate a key is given. -/
def chosen [DecidableEq K] (ks : List K) (k : K) : Option C :=
  (onlyMatch fits cands k).filter fun c => claimant fits cands ks c = some k

/-- The candidates that no key is given. -/
def spare (ks : List K) : List C := cands.filter fun c => (claimant fits cands ks c).isNone

/-- The keys that are given nothing. -/
def unmatched [DecidableEq K] (ks : List K) : List K := ks.filter fun k => (chosen fits cands ks k).isNone

variable {fits cands} {ks : List K} {k : K} {c : C}

theorem chosen_eq_some [DecidableEq K] : chosen fits cands ks k = some c ↔
    onlyMatch fits cands k = some c ∧ claimant fits cands ks c = some k := by
  unfold chosen
  rw [Option.filter_eq_some_iff, decide_eq_true_eq]

theorem claimant_append : claimant fits cands (ks ++ [k]) c =
    (claimant fits cands ks c).or (if onlyMatch fits cands k = some c then some k else none) := by
  unfold claimant
  rw [List.find?_append]
  congr 1
  by_cases h : onlyMatch fits cands k = some c <;> simp [h]

theorem mem_of_claimant (h : claimant fits cands ks c = some k) : k ∈ ks :=
  List.mem_of_find?_eq_some h

theorem onlyMatch_of_claimant (h : claimant fits cands ks c = some k) :
    onlyMatch fits cands k = some c := by
  simpa using List.find?_some h

/-- A candidate that fits a key without an only match is claimed by nobody. -/
theorem claimant_of_onlyMatch_none
    (hfits : ∀ k k' c, fits k c = true → fits k' c = true → fits k = fits k')
    (hnone : onlyMatch fits cands k = none) (hc : fits k c = true) :
    claimant fits cands ks c = none := by
  rw [Option.eq_none_iff_forall_ne_some]
  intro k' hk'
  have hm := onlyMatch_of_claimant hk'
  have hsame : fits k' = fits k := hfits k' k c (fits_of_onlyMatch hm) hc
  unfold onlyMatch at hm hnone
  rw [hsame, hnone] at hm
  cases hm

variable [DecidableEq K]

theorem chosen_of_not_mem (h : k ∉ ks) : chosen fits cands ks k = none := by
  rw [Option.eq_none_iff_forall_ne_some]
  exact fun c hc => h (mem_of_claimant (chosen_eq_some.mp hc).2)

/-- One more key takes nothing from the others. -/
theorem chosen_append_of_ne {k' : K} (h : k' ≠ k) :
    chosen fits cands (ks ++ [k]) k' = chosen fits cands ks k' := by
  ext c
  rw [chosen_eq_some, chosen_eq_some, claimant_append, Option.or_eq_some_iff]
  refine and_congr_right fun _ => ⟨fun hc => hc.elim id fun hc => ?_, .inl⟩
  split_ifs at hc with hm
  · exact absurd (Option.some.inj hc.2).symm h
  · cases hc.2

/-- The last key is given its only match when nobody claimed it before. -/
theorem chosen_last (hk : k ∉ ks) : chosen fits cands (ks ++ [k]) k = some c ↔
    onlyMatch fits cands k = some c ∧ claimant fits cands ks c = none := by
  rw [chosen_eq_some, claimant_append, Option.or_eq_some_iff]
  refine and_congr_right fun hm => ⟨fun hc => hc.elim (fun hc => ?_) And.left, fun hc => .inr ⟨hc, ?_⟩⟩
  · exact absurd (mem_of_claimant hc) hk
  · rw [if_pos hm]

/-! ### One more key -/

/-- The last key takes its candidate away. -/
theorem spare_append_of_some (hk : k ∉ ks) (h : chosen fits cands (ks ++ [k]) k = some c) :
    spare fits cands (ks ++ [k]) = (spare fits cands ks).filter (· ≠ c) := by
  unfold spare
  rw [List.filter_filter]
  refine List.filter_congr fun c' _ => ?_
  rw [claimant_append, Option.isNone_or, ((chosen_last hk).mp h).1, Bool.and_comm]
  congr 1
  by_cases hc : c = c' <;> simp [hc, eq_comm]

/-- A key that is given nothing leaves the candidates as they are. -/
theorem spare_append_of_none (hk : k ∉ ks) (h : chosen fits cands (ks ++ [k]) k = none) :
    spare fits cands (ks ++ [k]) = spare fits cands ks := by
  unfold spare
  refine List.filter_congr fun c _ => ?_
  rw [claimant_append, Option.isNone_or]
  by_cases hm : onlyMatch fits cands k = some c
  · cases hcl : claimant fits cands ks c with
    | none =>
        rw [(chosen_last hk).mpr ⟨hm, hcl⟩] at h
        cases h
    | some k' => rfl
  · simp [hm]

theorem unmatched_append (hk : k ∉ ks) : unmatched fits cands (ks ++ [k]) =
    unmatched fits cands ks ++ [k].filter fun k' => (chosen fits cands (ks ++ [k]) k').isNone := by
  have hold : ∀ k' ∈ ks, (chosen fits cands (ks ++ [k]) k').isNone =
      (chosen fits cands ks k').isNone := by
    intro k' hk'
    rw [chosen_append_of_ne]
    rintro rfl
    exact hk hk'
  unfold unmatched
  rw [List.filter_append, List.filter_congr hold]

/-- **The loop looks only at what is left**: the last key is given a candidate exactly when it
is the only one left that fits. -/
theorem filter_spare_eq
    (hfits : ∀ k k' c, fits k c = true → fits k' c = true → fits k = fits k') (hk : k ∉ ks) :
    (spare fits cands ks).filter (fits k) = [c] ↔ chosen fits cands (ks ++ [k]) k = some c := by
  have hcomm : (spare fits cands ks).filter (fits k) =
      (cands.filter (fits k)).filter fun c => (claimant fits cands ks c).isNone := by
    unfold spare
    rw [List.filter_filter, List.filter_filter]
    exact List.filter_congr fun _ _ => Bool.and_comm _ _
  rw [hcomm, chosen_last hk]
  cases hm : onlyMatch fits cands k with
  | some c' =>
      rw [onlyMatch_eq_some.mp hm, Option.some.injEq]
      cases hcl : claimant fits cands ks c' with
      | none =>
          have hkeep : [c'].filter (fun c => (claimant fits cands ks c).isNone) = [c'] := by
            simp [hcl]
          rw [hkeep, List.cons.injEq, and_iff_left rfl]
          exact ⟨fun h => ⟨h, h ▸ hcl⟩, And.left⟩
      | some k' =>
          have hdrop : [c'].filter (fun c => (claimant fits cands ks c).isNone) = [] := by
            simp [hcl]
          rw [hdrop]
          refine ⟨nofun, ?_⟩
          rintro ⟨rfl, hc⟩
          rw [hcl] at hc
          cases hc
  | none =>
      have hall : (cands.filter (fits k)).filter (fun c => (claimant fits cands ks c).isNone) =
          cands.filter (fits k) := by
        rw [List.filter_eq_self]
        intro c hc
        rw [claimant_of_onlyMatch_none hfits hm (List.mem_filter.mp hc).2]
        rfl
      rw [hall, ← onlyMatch_eq_some, hm]
      simp

end Lib.Matching
