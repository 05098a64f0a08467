import JAgent.Lib.Ranking

/-! # The sections of a timeline

Markers and items are merged into one timeline by a stable sort on their keys, markers first.  Each marker
opens a section, and the items up to the next one belong to it; items before the first marker make up a
section of their own.

The number of the section of an item is the number of markers at or before it (`indexed_eq`).  So two items
share a section exactly when no marker has a key in between, and a symmetric relation holds within all
sections exactly when it holds of every two such items (`forall_sections_iff`). -/

namespace Lib

variable {μ α : Type}

/-- The sections, when one with this marker and these items is open. -/
def sectionsFrom (marker : Option μ) (items : List α) : List (μ ⊕ α) → List (Option μ × List α)
  | [] => [(marker, items)]
  | .inl m :: es => (marker, items) :: sectionsFrom (some m) [] es
  | .inr a :: es => sectionsFrom marker (items ++ [a]) es

/-- The sections of a timeline. -/
def sections : List (μ ⊕ α) → List (Option μ × List α)
  | [] => []
  | .inl m :: es => sectionsFrom (some m) [] es
  | .inr a :: es => sectionsFrom none [a] es

/-- The items of a timeline. -/
def itemsOf (es : List (μ ⊕ α)) : List α := es.filterMap Sum.getRight?

/-- The markers of a timeline. -/
def markersOf (es : List (μ ⊕ α)) : List μ := es.filterMap Sum.getLeft?

/-- No item is lost and none changes its place. -/
theorem flatMap_sectionsFrom (marker : Option μ) (items : List α) (es : List (μ ⊕ α)) :
    (sectionsFrom marker items es).flatMap Prod.snd = items ++ itemsOf es := by
  induction es generalizing marker items with
  | nil => rw [sectionsFrom, List.flatMap_singleton, itemsOf, List.filterMap_nil, List.append_nil]
  | cons e es ih =>
      cases e with
      | inl m =>
          rw [sectionsFrom, List.flatMap_cons, ih]
          rfl
      | inr a =>
          rw [sectionsFrom, ih, List.append_assoc]
          rfl

theorem flatMap_sections (es : List (μ ⊕ α)) : (sections es).flatMap Prod.snd = itemsOf es := by
  match es with
  | [] => rfl
  | .inl m :: es => exact flatMap_sectionsFrom _ _ es
  | .inr a :: es => exact flatMap_sectionsFrom _ _ es

/-! ### Numbered items -/

/-- The items with the number of markers before them. -/
def indexed (n : ℕ) : List (μ ⊕ α) → List (ℕ × α)
  | [] => []
  | .inl _ :: es => indexed (n + 1) es
  | .inr a :: es => (n, a) :: indexed n es

theorem le_of_mem_indexed {n : ℕ} {es : List (μ ⊕ α)} {x : ℕ × α} (h : x ∈ indexed n es) : n ≤ x.1 := by
  induction es generalizing n with
  | nil => cases h
  | cons e es ih =>
      cases e with
      | inl m => exact Nat.le_of_succ_le (ih h)
      | inr a =>
          obtain rfl | h := List.mem_cons.mp h
          · exact le_rfl
          · exact ih h

/-- Items with the same number. -/
theorem pairwise_map_mk {R : α → α → Prop} {n : ℕ} {items : List α} :
    ((items.map (Prod.mk n)).Pairwise fun x y => x.1 = y.1 → R x.2 y.2) ↔ items.Pairwise R := by
  rw [List.pairwise_map]
  constructor
  · intro h
    exact h.imp fun hR => hR rfl
  · intro h
    refine h.imp ?_
    intro a b hR _
    exact hR

/-- Two items of one section have the same number. -/
theorem forall_sectionsFrom_iff_indexed {R : α → α → Prop} (marker : Option μ) (items : List α)
    (es : List (μ ⊕ α)) (n : ℕ) :
    (∀ s ∈ sectionsFrom marker items es, s.2.Pairwise R) ↔
      (items.map (Prod.mk n) ++ indexed n es).Pairwise fun x y => x.1 = y.1 → R x.2 y.2 := by
  induction es generalizing marker items n with
  | nil =>
      rw [sectionsFrom, List.forall_mem_singleton, indexed, List.append_nil, pairwise_map_mk]
  | cons e es ih =>
      cases e with
      | inl m =>
          rw [sectionsFrom, List.forall_mem_cons, ih (some m) [] (n + 1), List.map_nil, List.nil_append,
            indexed, List.pairwise_append, pairwise_map_mk]
          constructor
          · rintro ⟨hitems, hrest⟩
            refine ⟨hitems, hrest, fun x hx y hy hxy => ?_⟩
            obtain ⟨a, -, rfl⟩ := List.mem_map.mp hx
            have hle := le_of_mem_indexed hy
            rw [← hxy] at hle
            exact absurd hle (Nat.not_succ_le_self n)
          · rintro ⟨hitems, hrest, -⟩
            exact ⟨hitems, hrest⟩
      | inr a =>
          rw [sectionsFrom, ih marker (items ++ [a]) n, List.map_append, List.append_assoc]
          rfl

theorem forall_sections_iff_indexed {R : α → α → Prop} (es : List (μ ⊕ α)) :
    (∀ s ∈ sections es, s.2.Pairwise R) ↔
      (indexed 0 es).Pairwise fun x y => x.1 = y.1 → R x.2 y.2 := by
  match es with
  | [] => simp [sections, indexed]
  | .inl m :: es =>
      rw [sections, forall_sectionsFrom_iff_indexed _ _ _ 1]
      rfl
  | .inr a :: es =>
      rw [sections, forall_sectionsFrom_iff_indexed _ _ _ 0]
      rfl

/-! ### The merged timeline -/

section timeline
variable (km : μ → ℕ) (ka : α → ℕ)

/-- Earlier by key. -/
def Earlier (x y : μ ⊕ α) : Prop := Sum.elim km ka x ≤ Sum.elim km ka y

instance : DecidableRel (Earlier km ka) := fun x y =>
  inferInstanceAs (Decidable (Sum.elim km ka x ≤ Sum.elim km ka y))

instance : Std.Total (Earlier km ka) := ⟨fun x y => Nat.le_total (Sum.elim km ka x) (Sum.elim km ka y)⟩

instance : IsTrans (μ ⊕ α) (Earlier km ka) := ⟨fun _ _ _ => Nat.le_trans⟩

/-- Markers and items in the order of their keys. -/
def timeline (markers : List μ) (items : List α) : List (μ ⊕ α) :=
  (markers.map Sum.inl ++ items.map Sum.inr).insertionSort (Earlier km ka)

theorem timeline_perm (markers : List μ) (items : List α) :
    (timeline km ka markers items).Perm (markers.map Sum.inl ++ items.map Sum.inr) :=
  List.perm_insertionSort _ _

variable {km ka} {markers : List μ} {items : List α}

theorem itemsOf_timeline : (itemsOf (timeline km ka markers items)).Perm items := by
  have hperm := (timeline_perm km ka markers items).filterMap Sum.getRight?
  rw [List.filterMap_append, List.filterMap_map, List.filterMap_map] at hperm
  have hm : markers.filterMap (Sum.getRight? ∘ (Sum.inl : μ → μ ⊕ α)) = [] := by
    rw [List.filterMap_eq_nil_iff]
    intro m _
    rfl
  have ha : items.filterMap (Sum.getRight? ∘ (Sum.inr : α → μ ⊕ α)) = items := List.filterMap_some
  rw [hm, ha, List.nil_append] at hperm
  exact hperm

theorem markersOf_timeline : (markersOf (timeline km ka markers items)).Perm markers := by
  have hperm := (timeline_perm km ka markers items).filterMap Sum.getLeft?
  rw [List.filterMap_append, List.filterMap_map, List.filterMap_map] at hperm
  have hm : items.filterMap (Sum.getLeft? ∘ (Sum.inr : α → μ ⊕ α)) = [] := by
    rw [List.filterMap_eq_nil_iff]
    intro a _
    rfl
  have ha : markers.filterMap (Sum.getLeft? ∘ (Sum.inl : μ → μ ⊕ α)) = markers := List.filterMap_some
  rw [hm, ha, List.append_nil] at hperm
  exact hperm

/-- By key, and markers first where keys agree. -/
def InOrder (km : μ → ℕ) (ka : α → ℕ) (es : List (μ ⊕ α)) : Prop :=
  es.Pairwise fun x y => Earlier km ka x y ∧ (Earlier km ka y x → x.isRight = true → y.isRight = true)

/-- **The sort is stable**, so markers stay in front of items with the same key. -/
theorem timeline_inOrder : InOrder km ka (timeline km ka markers items) := by
  rw [InOrder, List.pairwise_iff_forall_sublist]
  intro x y hsub
  have hxy : Earlier km ka x y := by
    have hsorted := List.pairwise_insertionSort (Earlier km ka) (markers.map Sum.inl ++ items.map Sum.inr)
    exact List.rel_of_pairwise_cons (hsorted.sublist hsub) (List.mem_singleton_self y)
  refine ⟨hxy, fun hyx => ?_⟩
  -- the entries with the key of both are left in the order in which they came
  let p : μ ⊕ α → Bool := fun z => decide (Sum.elim km ka z = Sum.elim km ka x)
  have hpy : p y = true := decide_eq_true (Nat.le_antisymm hyx hxy)
  have hpx : p x = true := decide_eq_true rfl
  have hfilter := hsub.filter p
  rw [List.filter_cons_of_pos hpx, List.filter_cons_of_pos hpy, List.filter_nil, timeline,
    filter_insertionSort] at hfilter
  have hkeys : ((markers.map Sum.inl ++ items.map Sum.inr).filter p).Pairwise (Earlier km ka) := by
    rw [List.pairwise_filter]
    exact List.pairwise_of_forall fun a b ha hb =>
      (of_decide_eq_true ha).trans_le (of_decide_eq_true hb).ge
  rw [hkeys.insertionSort_eq] at hfilter
  have hright : (markers.map (Sum.inl : μ → μ ⊕ α) ++ items.map Sum.inr).Pairwise
      fun x y => Sum.isRight x = true → Sum.isRight y = true := by
    rw [List.pairwise_append]
    refine ⟨?_, ?_, fun a ha b hb _ => ?_⟩
    · rw [List.pairwise_map]
      exact List.pairwise_of_forall fun a b h => h
    · rw [List.pairwise_map]
      exact List.pairwise_of_forall fun a b h => h
    · obtain ⟨b, -, rfl⟩ := List.mem_map.mp hb
      rfl
  have hpair := hright.sublist (hfilter.trans List.filter_sublist)
  exact List.rel_of_pairwise_cons hpair (List.mem_singleton_self y)

/-- **The number of an item** is the number of markers that are not after it. -/
theorem indexed_eq {es : List (μ ⊕ α)} (h : InOrder km ka es) (n : ℕ) :
    indexed n es = (itemsOf es).map fun a => (n + (markersOf es).countP fun m => km m ≤ ka a, a) := by
  induction es generalizing n with
  | nil => rfl
  | cons e es ih =>
      obtain ⟨hhead, htail⟩ := List.pairwise_cons.mp h
      cases e with
      | inl m =>
          rw [indexed, ih htail]
          show _ = (itemsOf es).map _
          apply List.map_congr_left
          intro a ha
          obtain ⟨e, he, hea⟩ := List.mem_filterMap.mp ha
          obtain rfl : e = .inr a := by
            cases e with
            | inl m => cases hea
            | inr b =>
                obtain rfl := Option.some.inj hea
                rfl
          have hle : km m ≤ ka a := (hhead _ he).1
          have hcount : (markersOf (.inl m :: es)).countP (fun m => km m ≤ ka a) =
              (markersOf es).countP (fun m => km m ≤ ka a) + 1 :=
            List.countP_cons_of_pos (decide_eq_true hle)
          rw [hcount, Nat.add_assoc, Nat.add_comm 1]
      | inr a =>
          have hzero : (markersOf es).countP (fun m => km m ≤ ka a) = 0 := by
            rw [List.countP_eq_zero]
            intro m hm hle
            obtain ⟨e, he, hem⟩ := List.mem_filterMap.mp hm
            obtain rfl : e = .inl m := by
              cases e with
              | inr b => cases hem
              | inl b =>
                  obtain rfl := Option.some.inj hem
                  rfl
            cases (hhead _ he).2 (of_decide_eq_true hle) rfl
          rw [indexed, ih htail]
          show _ = (n + (markersOf es).countP _, a) :: (itemsOf es).map _
          rw [hzero]
          rfl

theorem countP_eq_iff {x y : ℕ} (hxy : x ≤ y) (ms : List μ) :
    ms.countP (fun m => km m ≤ x) = ms.countP (fun m => km m ≤ y) ↔ ∀ m ∈ ms, ¬(x < km m ∧ km m ≤ y) := by
  induction ms with
  | nil => simp
  | cons m ms ih =>
      have hle : ms.countP (fun m => km m ≤ x) ≤ ms.countP (fun m => km m ≤ y) :=
        List.countP_mono_left fun m _ h => decide_eq_true ((of_decide_eq_true h).trans hxy)
      rw [List.forall_mem_cons, ← ih, List.countP_cons, List.countP_cons]
      simp only [decide_eq_true_eq]
      split_ifs <;> omega

/-- **A symmetric relation within all sections** is one of every two items with no marker in between. -/
theorem forall_sections_iff {R : α → α → Prop} (hsymm : ∀ {a b}, R a b → R b a) :
    (∀ s ∈ sections (timeline km ka markers items), s.2.Pairwise R) ↔
      items.Pairwise fun a b =>
        (∀ m ∈ markers, ¬(min (ka a) (ka b) < km m ∧ km m ≤ max (ka a) (ka b))) → R a b := by
  have hcount (a b : α) : (markers.countP (fun m => km m ≤ ka a) = markers.countP fun m => km m ≤ ka b) ↔
      ∀ m ∈ markers, ¬(min (ka a) (ka b) < km m ∧ km m ≤ max (ka a) (ka b)) := by
    obtain hab | hba := Nat.le_total (ka a) (ka b)
    · rw [countP_eq_iff hab, Nat.min_eq_left hab, Nat.max_eq_right hab]
    · rw [eq_comm, countP_eq_iff hba, Nat.min_eq_right hba, Nat.max_eq_left hba]
  rw [forall_sections_iff_indexed, indexed_eq timeline_inOrder, List.pairwise_map]
  simp only [Nat.zero_add, markersOf_timeline.countP_eq, hcount]
  apply itemsOf_timeline.pairwise_iff
  intro a b hR hb
  rw [Nat.min_comm, Nat.max_comm] at hb
  exact hsymm (hR hb)

end timeline

end Lib
