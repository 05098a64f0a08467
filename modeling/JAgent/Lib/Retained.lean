import Mathlib.Data.List.Basic

/-! # A view that events add to and take from

The view of a log holds the entries that its events added, in order.  An event carries a stamp, may add one
entry under its stamp as key, and may drop entries by their keys.

When the stamps go up along the log, what is dropped depends on the events behind an entry alone: the view
is the list of all entries less those that a later event drops (`foldl_retain`).  Its keys go up as well
(`keys_retain`). -/

namespace Lib

variable {ε α : Type}

/-- How a log makes up a view. -/
structure Retention (ε α : Type) where
  stamp : ε → ℕ
  adds : ε → Option α
  drops : ε → List ℕ
  key : α → ℕ
  key_adds : ∀ {e a}, adds e = some a → key a = stamp e

namespace Retention
variable (ρ : Retention ε α)

/-- One event. -/
def retain (view : List α) (e : ε) : List α :=
  (view.filter fun a => !(ρ.drops e).contains (ρ.key a)) ++ (ρ.adds e).toList

/-- No later event of the log drops the entry. -/
def survives (es : List ε) (a : α) : Bool :=
  es.all fun e => !(decide (ρ.key a < ρ.stamp e) && (ρ.drops e).contains (ρ.key a))

/-- The entries a log adds. -/
def added (es : List ε) : List α := es.filterMap ρ.adds

/-- The stamps go up. -/
def Ascending (es : List ε) : Prop := es.Pairwise fun a b => ρ.stamp a < ρ.stamp b

variable {ρ} {es : List ε} {view : List α}

theorem survives_iff {a : α} : ρ.survives es a = true ↔
    ∀ e ∈ es, ρ.key a < ρ.stamp e → ρ.key a ∉ ρ.drops e := by
  rw [survives, List.all_eq_true]
  apply forall₂_congr
  intro e _
  rw [Bool.not_eq_true', Bool.and_eq_false_imp, decide_eq_true_eq, ← Bool.not_eq_true,
    List.contains_iff_mem]

theorem added_cons (e : ε) (es : List ε) : ρ.added (e :: es) = (ρ.adds e).toList ++ ρ.added es := by
  cases h : ρ.adds e with
  | none => rw [added, List.filterMap_cons_none h, Option.toList_none, List.nil_append, added]
  | some a => rw [added, List.filterMap_cons_some h, Option.toList_some, List.singleton_append, added]

theorem added_append (es es' : List ε) : ρ.added (es ++ es') = ρ.added es ++ ρ.added es' :=
  List.filterMap_append

/-- An entry has the stamp of an event of the log as its key. -/
theorem exists_stamp_of_mem {a : α} (h : a ∈ ρ.added es) :
    ∃ e ∈ es, ρ.adds e = some a ∧ ρ.key a = ρ.stamp e := by
  obtain ⟨e, he, hadds⟩ := List.mem_filterMap.mp h
  exact ⟨e, he, hadds, ρ.key_adds hadds⟩

/-- **The view of a log** is what it adds and does not drop later. -/
theorem foldl_retain (hes : ρ.Ascending es) (hview : ∀ a ∈ view, ∀ e ∈ es, ρ.key a < ρ.stamp e) :
    es.foldl ρ.retain view = (view ++ ρ.added es).filter (ρ.survives es) := by
  induction es generalizing view with
  | nil =>
      rw [added, List.filterMap_nil, List.append_nil]
      exact (List.filter_eq_self.mpr fun a _ => rfl).symm
  | cons e es ih =>
      obtain ⟨hhead, htail⟩ := List.pairwise_cons.mp hes
      have hretained : ∀ a ∈ ρ.retain view e, ∀ e' ∈ es, ρ.key a < ρ.stamp e' := by
        intro a ha e' he'
        obtain ha | ha := List.mem_append.mp ha
        · exact hview a (List.mem_of_mem_filter ha) e' (List.mem_cons_of_mem _ he')
        · rw [ρ.key_adds (Option.mem_toList.mp ha)]
          exact hhead e' he'
      rw [List.foldl_cons, ih htail hretained, retain, added_cons]
      simp only [List.filter_append, List.filter_filter, List.append_assoc]
      -- the first event drops entries of the view only
      have hold : ∀ a ∈ view, (ρ.survives es a && !(ρ.drops e).contains (ρ.key a)) = ρ.survives (e :: es) a := by
        intro a ha
        rw [survives, survives, List.all_cons, decide_eq_true (hview a ha e List.mem_cons_self), Bool.true_and,
          Bool.and_comm]
      have hnew : ∀ a, ρ.stamp e ≤ ρ.key a → ρ.survives es a = ρ.survives (e :: es) a := by
        intro a ha
        rw [survives, survives, List.all_cons, decide_eq_false (Nat.not_lt.mpr ha), Bool.false_and]
        rfl
      congr 1
      · exact List.filter_congr hold
      · congr 1
        · exact List.filter_congr fun a ha => hnew a (Nat.le_of_eq (ρ.key_adds (Option.mem_toList.mp ha)).symm)
        · refine List.filter_congr fun a ha => hnew a ?_
          obtain ⟨e', he', -, hkey⟩ := exists_stamp_of_mem ha
          rw [hkey]
          exact Nat.le_of_lt (hhead e' he')

/-- The keys of what a log adds go up. -/
theorem keys_added (hes : ρ.Ascending es) : (ρ.added es).Pairwise fun a b => ρ.key a < ρ.key b := by
  rw [added, List.pairwise_filterMap]
  refine hes.imp ?_
  intro e e' hlt a ha b hb
  rw [ρ.key_adds ha, ρ.key_adds hb]
  exact hlt

/-- **The keys of the view go up.** -/
theorem keys_retain (hes : ρ.Ascending es) :
    (es.foldl ρ.retain []).Pairwise fun a b => ρ.key a < ρ.key b := by
  rw [foldl_retain hes fun a ha => absurd ha List.not_mem_nil, List.nil_append]
  exact (keys_added hes).filter _

end Retention

end Lib
