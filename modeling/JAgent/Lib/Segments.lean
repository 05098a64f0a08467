import JAgent.Lib.Pattern

/-! # Patterns of paths

A path is a sequence of parts, each behind a separator.  A pattern of paths says of each part that it is one of
some words or that it is anything, and is matched like the regular expression `^…$`: up to the end of the text or
up to a line end that is its last letter (`matchLine`).

The parts of a path are determined by it (`glue_injective`), so patterns are compared part by part: two patterns
that clash somewhere have no path in common (`not_matchLine_of_clashes`), and a pattern that covers another one
has all its paths (`matchLine_of_covers`).  Both conditions are decidable. -/

namespace Lib

variable {α : Type} [DecidableEq α]

/-- What a pattern says about one part of a path. -/
inductive Segment (α : Type) where
  | words (ws : List (List α))
  | any

section segments
variable (sep eol : α)

/-- The regular expression of one part: `(w₁|…|wₙ)` or `[^sep]+`. -/
def Segment.pattern : Segment α → Pattern α
  | .words ws => .words ws
  | .any => .some1 fun c => decide (c ≠ sep)

/-- The regular expression of a path: each part behind a separator. -/
def pathPattern (segments : List (Segment α)) : Pattern α :=
  segments.foldr (fun s rest => .seq (.seq (.word [sep]) (s.pattern sep)) rest) .empty

/-- `re.match("^…$", text)`: `$` also matches before a line end that is the last letter. -/
def matchLine (r : Pattern α) (text : List α) : Bool :=
  r.accepts text || (decide (text.getLast? = some eol) && r.accepts text.dropLast)

/-- The path of these parts. -/
def glue (parts : List (List α)) : List α := parts.flatMap (sep :: ·)

/-! ### The parts of a path -/

/-- The part is as the segment says. -/
def Segment.Holds : Segment α → List α → Prop
  | .words ws, part => part ∈ ws
  | .any, part => part ≠ [] ∧ sep ∉ part

/-- The last part is as the segment says, up to a line end. -/
def Segment.Ends : Segment α → List α → Prop
  | .words ws, part => part ∈ ws ∨ ∃ w ∈ ws, part = w ++ [eol]
  | .any, part => part ≠ [] ∧ sep ∉ part

/-- The parts are as the segments say, the last one up to a line end. -/
inductive Fits : List (Segment α) → List (List α) → Prop
  | last {s : Segment α} {part : List α} (h : s.Ends sep eol part) : Fits [s] [part]
  | cons {s : Segment α} {segments : List (Segment α)} {part : List α} {parts : List (List α)}
      (h : s.Holds sep part) (rest : Fits segments parts) : Fits (s :: segments) (part :: parts)

/-- The words of a segment are parts: not empty, and without separators and line ends. -/
def Segment.proper : Segment α → Bool
  | .words ws => ws.all fun w => decide (w ≠ []) && decide (sep ∉ w) && decide (eol ∉ w)
  | .any => true

variable {sep eol}

theorem mem_words_of_proper {ws : List (List α)} (h : (Segment.words ws).proper sep eol = true) {w : List α}
    (hw : w ∈ ws) : w ≠ [] ∧ sep ∉ w ∧ eol ∉ w := by
  have hall := List.all_eq_true.mp h w hw
  rw [Bool.and_eq_true, Bool.and_eq_true] at hall
  exact ⟨of_decide_eq_true hall.1.1, of_decide_eq_true hall.1.2, of_decide_eq_true hall.2⟩

theorem spells_segment {s : Segment α} {part : List α} : (s.pattern sep).Spells part ↔ s.Holds sep part := by
  cases s with
  | words ws => exact Pattern.spells_words
  | any =>
      rw [Segment.pattern, Pattern.spells_some1]
      apply and_congr_right
      intro _
      constructor
      · intro h hmem
        exact of_decide_eq_true (h sep hmem) rfl
      · intro h c hc
        apply decide_eq_true
        rintro rfl
        exact h hc

theorem spells_pathPattern_cons {s : Segment α} {segments : List (Segment α)} {text : List α} :
    (pathPattern sep (s :: segments)).Spells text ↔
      ∃ part rest, text = sep :: part ++ rest ∧ s.Holds sep part ∧ (pathPattern sep segments).Spells rest := by
  show (Pattern.seq (.seq (.word [sep]) (s.pattern sep)) (pathPattern sep segments)).Spells text ↔ _
  rw [Pattern.spells_seq]
  constructor
  · rintro ⟨front, rest, rfl, hfront, hrest⟩
    obtain ⟨part, rfl, hpart⟩ := Pattern.spells_word_seq.mp hfront
    exact ⟨part, rest, rfl, spells_segment.mp hpart, hrest⟩
  · rintro ⟨part, rest, rfl, hpart, hrest⟩
    exact ⟨sep :: part, rest, rfl, Pattern.spells_word_seq.mpr ⟨part, rfl, spells_segment.mpr hpart⟩, hrest⟩

/-- A path of the pattern, or one with a line end behind it. -/
theorem matchLine_iff {r : Pattern α} {text : List α} :
    matchLine eol r text = true ↔ r.Spells text ∨ ∃ front, text = front ++ [eol] ∧ r.Spells front := by
  rw [matchLine, Bool.or_eq_true, Bool.and_eq_true, Pattern.accepts_iff, Pattern.accepts_iff, decide_eq_true_iff]
  apply or_congr_right
  constructor
  · rintro ⟨hlast, hfront⟩
    exact ⟨text.dropLast, (List.dropLast_append_getLast? eol hlast).symm, hfront⟩
  · rintro ⟨front, rfl, hfront⟩
    rw [List.getLast?_concat, List.dropLast_concat]
    exact ⟨rfl, hfront⟩

omit [DecidableEq α] in
theorem Segment.Holds.ends {s : Segment α} {part : List α} (h : s.Holds sep part) : s.Ends sep eol part := by
  cases s with
  | words ws => exact .inl h
  | any => exact h

/-- **A text matches a pattern of paths iff it is the path of parts that fit it.** -/
theorem matchLine_pathPattern (hne : sep ≠ eol) {segments : List (Segment α)} (hseg : segments ≠ [])
    {text : List α} :
    matchLine eol (pathPattern sep segments) text = true ↔ ∃ parts, text = glue sep parts ∧ Fits sep eol segments parts := by
  rw [matchLine_iff]
  induction segments generalizing text with
  | nil => exact absurd rfl hseg
  | cons s segments ih =>
      cases segments with
      | nil =>
          -- the last part takes the line end
          have hone : ∀ text', (pathPattern sep [s]).Spells text' ↔ ∃ part, text' = sep :: part ∧ s.Holds sep part := by
            intro text'
            rw [spells_pathPattern_cons]
            constructor
            · rintro ⟨part, rest, rfl, hpart, hrest⟩
              rw [Pattern.spells_empty.mp hrest, List.append_nil]
              exact ⟨part, rfl, hpart⟩
            · rintro ⟨part, rfl, hpart⟩
              exact ⟨part, [], (List.append_nil _).symm, hpart, .empty⟩
          rw [hone]
          constructor
          · rintro (⟨part, rfl, hpart⟩ | ⟨front, rfl, hfront⟩)
            · exact ⟨[part], by simp [glue], .last hpart.ends⟩
            · obtain ⟨part, rfl, hpart⟩ := (hone front).mp hfront
              refine ⟨[part ++ [eol]], by simp [glue], ?_⟩
              cases s with
              | words ws => exact .last (.inr ⟨part, hpart, rfl⟩)
              | any => exact .last ⟨by simp, by simp [hpart.2, hne]⟩
          · rintro ⟨parts, rfl, hfits⟩
            cases hfits with
            | cons _ hrest => cases hrest
            | @last _ part hends =>
                cases s with
                | words ws =>
                    obtain hpart | ⟨w, hw, rfl⟩ := hends
                    · exact .inl ⟨part, by simp [glue], hpart⟩
                    · exact .inr ⟨sep :: w, by simp [glue], (hone _).mpr ⟨w, rfl, hw⟩⟩
                | any => exact .inl ⟨part, by simp [glue], hends⟩
      | cons s' segments =>
          have ih' : ∀ text', _ ↔ ∃ parts, text' = glue sep parts ∧ Fits sep eol (s' :: segments) parts :=
            fun text' => ih (List.cons_ne_nil s' segments)
          constructor
          · intro h
            have hsplit : ∃ part rest, text = sep :: part ++ rest ∧ s.Holds sep part ∧
                ((pathPattern sep (s' :: segments)).Spells rest ∨
                  ∃ front, rest = front ++ [eol] ∧ (pathPattern sep (s' :: segments)).Spells front) := by
              rcases h with h | ⟨front, rfl, h⟩
              · obtain ⟨part, rest, rfl, hpart, hrest⟩ := spells_pathPattern_cons.mp h
                exact ⟨part, rest, rfl, hpart, .inl hrest⟩
              · obtain ⟨part, rest, rfl, hpart, hrest⟩ := spells_pathPattern_cons.mp h
                exact ⟨part, rest ++ [eol], List.append_assoc _ _ _, hpart, .inr ⟨rest, rfl, hrest⟩⟩
            obtain ⟨part, rest, rfl, hpart, hrest⟩ := hsplit
            obtain ⟨parts, rfl, hfits⟩ := (ih' rest).mp hrest
            exact ⟨part :: parts, by simp [glue], .cons hpart hfits⟩
          · rintro ⟨parts, rfl, hfits⟩
            cases hfits with
            | @cons _ _ part parts hpart hfits =>
                have hglue : glue sep (part :: parts) = sep :: part ++ glue sep parts := by
                  simp [glue]
                rw [hglue]
                obtain h | ⟨front, hfront, h⟩ := (ih' _).mpr ⟨parts, rfl, hfits⟩
                · exact .inl (spells_pathPattern_cons.mpr ⟨part, _, rfl, hpart, h⟩)
                · refine .inr ⟨sep :: part ++ front, ?_, spells_pathPattern_cons.mpr ⟨part, _, rfl, hpart, h⟩⟩
                  rw [hfront, List.append_assoc]

/-- The parts of a path without separators in its parts are determined by it. -/
theorem glue_injective {parts parts' : List (List α)} (h : ∀ p ∈ parts, sep ∉ p) (h' : ∀ p ∈ parts', sep ∉ p)
    (heq : glue sep parts = glue sep parts') : parts = parts' := by
  have hhead : ∀ ps : List (List α), glue sep ps = [] ∨ ∃ t, glue sep ps = sep :: t := by
    intro ps
    cases ps with
    | nil => exact .inl rfl
    | cons p ps => exact .inr ⟨p ++ glue sep ps, rfl⟩
  induction parts generalizing parts' with
  | nil =>
      cases parts' with
      | nil => rfl
      | cons p' parts' => exact absurd heq (by simp [glue])
  | cons p parts ih =>
      cases parts' with
      | nil => exact absurd heq (by simp [glue])
      | cons p' parts' =>
          have htail : p ++ glue sep parts = p' ++ glue sep parts' := (List.cons.inj heq).2
          -- the first separator behind the first part ends it
          have hcut : ∀ (q : List α) (qs : List (List α)), sep ∉ q →
              (q ++ glue sep qs).takeWhile (fun c => decide (c ≠ sep)) = q := by
            intro q qs hq
            have hall : ∀ c ∈ q, decide (c ≠ sep) = true := by
              intro c hc
              apply decide_eq_true
              rintro rfl
              exact hq hc
            rw [List.takeWhile_append_of_pos hall]
            rcases hhead qs with hnil | ⟨t, ht⟩
            · rw [hnil, List.takeWhile_nil, List.append_nil]
            · rw [ht, List.takeWhile_cons_of_neg (by simp), List.append_nil]
          have hp : p = p' := by
            rw [← hcut p parts (h p List.mem_cons_self), htail, hcut p' parts' (h' p' List.mem_cons_self)]
          subst hp
          rw [ih (fun q hq => h q (List.mem_cons_of_mem _ hq)) (fun q hq => h' q (List.mem_cons_of_mem _ hq))
            (List.append_cancel_left htail)]

theorem Segment.Ends.no_sep (hne : sep ≠ eol) {s : Segment α} {part : List α} (hs : s.proper sep eol = true)
    (h : s.Ends sep eol part) : sep ∉ part := by
  cases s with
  | words ws =>
      rcases h with h | ⟨w, hw, rfl⟩
      · exact (mem_words_of_proper hs h).2.1
      · simpa [hne] using (mem_words_of_proper hs hw).2.1
  | any => exact h.2

theorem Fits.no_sep (hne : sep ≠ eol) {segments : List (Segment α)} {parts : List (List α)}
    (hs : segments.all (Segment.proper sep eol) = true) (h : Fits sep eol segments parts) : ∀ p ∈ parts, sep ∉ p := by
  induction h with
  | last hends =>
      rw [List.all_cons, Bool.and_eq_true] at hs
      exact List.forall_mem_singleton.mpr (hends.no_sep hne hs.1)
  | cons hpart _ ih =>
      rw [List.all_cons, Bool.and_eq_true] at hs
      exact List.forall_mem_cons.mpr ⟨hpart.ends.no_sep hne hs.1, ih hs.2⟩

/-! ### Comparing patterns -/

/-- No part is as both segments say. -/
def Segment.clash : Segment α → Segment α → Bool
  | .words ws, .words ws' => ws.all fun w => decide (w ∉ ws')
  | _, _ => false

/-- Every part that is as the second segment says is as the first one says. -/
def Segment.covers : Segment α → Segment α → Bool
  | .any, _ => true
  | .words ws, .words ws' => ws'.all fun w => decide (w ∈ ws)
  | .words _, .any => false

/-- The patterns differ in length or clash in a part. -/
def clashes : List (Segment α) → List (Segment α) → Bool
  | [], [] => false
  | s :: segments, s' :: segments' => s.clash s' || clashes segments segments'
  | _, _ => true

/-- The first pattern covers the second one in each part. -/
def covers : List (Segment α) → List (Segment α) → Bool
  | [], [] => true
  | s :: segments, s' :: segments' => s.covers s' && covers segments segments'
  | _, _ => false

theorem Segment.not_ends_of_clash {s s' : Segment α} {part : List α} (hs : s.proper sep eol = true)
    (hs' : s'.proper sep eol = true) (h : s.clash s' = true) (hends : s.Ends sep eol part) :
    ¬ s'.Ends sep eol part := by
  match s, s', h with
  | .words ws, .words ws', h =>
      have hdisjoint : ∀ w ∈ ws, w ∉ ws' := fun w hw => of_decide_eq_true (List.all_eq_true.mp h w hw)
      have hline : ∀ {vs : List (List α)} {w : List α}, (Segment.words vs).proper sep eol = true → w ++ [eol] ∉ vs := by
        intro vs w hvs hmem
        exact (mem_words_of_proper hvs hmem).2.2 (List.mem_append_right _ List.mem_cons_self)
      rintro (hpart' | ⟨w', hw', rfl⟩)
      · rcases hends with hpart | ⟨w, hw, rfl⟩
        · exact hdisjoint part hpart hpart'
        · exact hline hs' hpart'
      · rcases hends with hpart | ⟨w, hw, heq⟩
        · exact hline hs hpart
        · rw [List.append_cancel_right heq] at hw'
          exact hdisjoint w hw hw'

theorem Segment.holds_of_covers {s s' : Segment α} {part : List α} (hs' : s'.proper sep eol = true)
    (h : s.covers s' = true) (hpart : s'.Holds sep part) : s.Holds sep part := by
  match s, s', h with
  | .any, .any, _ => exact hpart
  | .any, .words ws', _ => exact ⟨(mem_words_of_proper hs' hpart).1, (mem_words_of_proper hs' hpart).2.1⟩
  | .words ws, .words ws', h =>
      have hsub : part ∈ ws := of_decide_eq_true (List.all_eq_true.mp h part hpart)
      exact hsub

theorem Segment.ends_of_covers (hne : sep ≠ eol) {s s' : Segment α} {part : List α}
    (hs' : s'.proper sep eol = true) (h : s.covers s' = true) (hpart : s'.Ends sep eol part) :
    s.Ends sep eol part := by
  match s, s', h with
  | .any, .any, _ => exact hpart
  | .any, .words ws', _ =>
      refine ⟨?_, hpart.no_sep hne hs'⟩
      rcases hpart with hpart | ⟨w, -, rfl⟩
      · exact (mem_words_of_proper hs' hpart).1
      · exact List.append_ne_nil_of_right_ne_nil _ (List.cons_ne_nil _ _)
  | .words ws, .words ws', h =>
      have hsub : ∀ w ∈ ws', w ∈ ws := fun w hw => of_decide_eq_true (List.all_eq_true.mp h w hw)
      rcases hpart with hpart | ⟨w, hw, rfl⟩
      · exact .inl (hsub part hpart)
      · exact .inr ⟨w, hsub w hw, rfl⟩

theorem not_fits_of_clashes {segments segments' : List (Segment α)} {parts : List (List α)}
    (hs : segments.all (Segment.proper sep eol) = true) (hs' : segments'.all (Segment.proper sep eol) = true)
    (h : clashes segments segments' = true) (hfits : Fits sep eol segments parts) :
    ¬ Fits sep eol segments' parts := by
  induction hfits generalizing segments' with
  | @last s part hends =>
      intro hfits'
      rw [List.all_cons, Bool.and_eq_true] at hs
      cases hfits' with
      | cons _ hrest => cases hrest
      | @last s' _ hends' =>
          rw [List.all_cons, Bool.and_eq_true] at hs'
          rw [clashes, clashes, Bool.or_false] at h
          exact s.not_ends_of_clash hs.1 hs'.1 h hends hends'
  | @cons s segments part parts hpart hrest ih =>
      intro hfits'
      rw [List.all_cons, Bool.and_eq_true] at hs
      cases hfits' with
      | last => cases hrest
      | @cons s' segments' _ _ hpart' hrest' =>
          rw [List.all_cons, Bool.and_eq_true] at hs'
          rw [clashes, Bool.or_eq_true] at h
          obtain h | h := h
          · exact s.not_ends_of_clash hs.1 hs'.1 h hpart.ends hpart'.ends
          · exact ih hs.2 hs'.2 h hrest'

theorem fits_of_covers (hne : sep ≠ eol) {segments segments' : List (Segment α)} {parts : List (List α)}
    (hs' : segments'.all (Segment.proper sep eol) = true) (h : covers segments segments' = true)
    (hfits : Fits sep eol segments' parts) : Fits sep eol segments parts := by
  induction hfits generalizing segments with
  | @last s' part hends =>
      rw [List.all_cons, Bool.and_eq_true] at hs'
      match segments, h with
      | [s], h =>
          rw [covers, Bool.and_eq_true] at h
          exact .last (s.ends_of_covers hne hs'.1 h.1 hends)
      | s :: t :: segments, h => exact absurd h (by simp [covers])
  | @cons s' segments' part parts hpart _ ih =>
      rw [List.all_cons, Bool.and_eq_true] at hs'
      cases segments with
      | nil => exact absurd h Bool.false_ne_true
      | cons s segments =>
          rw [covers, Bool.and_eq_true] at h
          exact .cons (s.holds_of_covers hs'.1 h.1 hpart) (ih hs'.2 h.2)

section compare
variable {segments segments' : List (Segment α)} {text : List α}

/-- **Patterns that clash have no path in common.** -/
theorem not_matchLine_of_clashes (hne : sep ≠ eol) (hnil : segments ≠ []) (hnil' : segments' ≠ [])
    (hs : segments.all (Segment.proper sep eol) = true) (hs' : segments'.all (Segment.proper sep eol) = true)
    (h : clashes segments segments' = true) (hm : matchLine eol (pathPattern sep segments) text = true) :
    matchLine eol (pathPattern sep segments') text = false := by
  rw [← Bool.not_eq_true, matchLine_pathPattern hne hnil']
  rintro ⟨parts', heq, hfits'⟩
  obtain ⟨parts, rfl, hfits⟩ := (matchLine_pathPattern hne hnil).mp hm
  obtain rfl := glue_injective (hfits.no_sep hne hs) (hfits'.no_sep hne hs') heq
  exact not_fits_of_clashes hs hs' h hfits hfits'

/-- **A pattern has all paths of a pattern that it covers.** -/
theorem matchLine_of_covers (hne : sep ≠ eol) (hnil : segments ≠ []) (hnil' : segments' ≠ [])
    (hs' : segments'.all (Segment.proper sep eol) = true) (h : covers segments segments' = true)
    (hm : matchLine eol (pathPattern sep segments') text = true) :
    matchLine eol (pathPattern sep segments) text = true := by
  obtain ⟨parts, rfl, hfits⟩ := (matchLine_pathPattern hne hnil').mp hm
  exact (matchLine_pathPattern hne hnil).mpr ⟨parts, rfl, fits_of_covers hne hs' h hfits⟩

end compare

end segments

end Lib
