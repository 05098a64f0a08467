import Mathlib.Data.List.Nodup
import Mathlib.Data.List.Basic
import Mathlib.Data.List.Count
import Mathlib.Tactic.Ring

/-! # Insertion-ordered dictionaries

A `Dict κ α` is a finite map that remembers the order in which its keys were first
inserted: writing an existing key keeps its position, writing a new key appends it, and
removing a key closes the gap.  Duplicate keys cannot be built (`Dict.nodup`).

Lookup after every operation is given by one simp lemma (`get?_set`, `get?_pop`,
`get?_popMany`, `get?_ofPairs_eq_none`), so that clients never unfold the list of pairs. -/

namespace Lib

/-- First value paired with `k`. -/
def assoc {κ α : Type} [DecidableEq κ] (k : κ) : List (κ × α) → Option α
  | [] => none
  | (k', v) :: l => if k' = k then some v else assoc k l

section assoc
variable {κ α : Type} [DecidableEq κ]

theorem mem_of_assoc {k : κ} {v : α} : ∀ {l : List (κ × α)}, assoc k l = some v → (k, v) ∈ l
  | [], h => by simp [assoc] at h
  | (k', v') :: l, h => by
      unfold assoc at h
      split_ifs at h with hk
      · simp_all
      · exact List.mem_cons_of_mem _ (mem_of_assoc h)

theorem assoc_eq_none_iff {k : κ} : ∀ {l : List (κ × α)}, assoc k l = none ↔ k ∉ l.map Prod.fst
  | [] => by simp [assoc]
  | (k', v') :: l => by
      unfold assoc
      split_ifs with hk
      · simp [hk]
      · rw [assoc_eq_none_iff]
        simp [Ne.symm hk]

theorem assoc_append (k : κ) : ∀ l l' : List (κ × α),
    assoc k (l ++ l') = (assoc k l).or (assoc k l')
  | [], l' => by simp [assoc]
  | (k', v) :: l, l' => by
      simp only [List.cons_append, assoc]
      split_ifs
      · rfl
      · exact assoc_append k l l'

theorem assoc_of_mem_nodup {k : κ} {v : α} : ∀ {l : List (κ × α)},
    (l.map Prod.fst).Nodup → (k, v) ∈ l → assoc k l = some v
  | [], _, h => by simp at h
  | (k', v') :: l, hn, h => by
      simp only [List.map_cons, List.nodup_cons] at hn
      unfold assoc
      rcases List.mem_cons.mp h with h | h
      · cases h; simp
      · have hne : k' ≠ k := by
          rintro rfl
          exact hn.1 (List.mem_map_of_mem (f := Prod.fst) h)
        rw [if_neg hne]
        exact assoc_of_mem_nodup hn.2 h

end assoc

/-- A finite map that remembers insertion order. -/
structure Dict (κ α : Type) where
  items : List (κ × α)
  nodup : (items.map Prod.fst).Nodup

namespace Dict
variable {κ α : Type} [DecidableEq κ]

instance [DecidableEq α] : DecidableEq (Dict κ α) := fun d d' =>
  decidable_of_iff (d.items = d'.items) ⟨fun h => by cases d; cases d'; simp_all, fun h => h ▸ rfl⟩

/-- The dictionary without keys. -/
def empty : Dict κ α := ⟨[], List.nodup_nil⟩

instance : Inhabited (Dict κ α) := ⟨empty⟩

/-- The keys, oldest first. -/
def keys (d : Dict κ α) : List κ := d.items.map Prod.fst

/-- The values, oldest key first. -/
def values (d : Dict κ α) : List α := d.items.map Prod.snd

/-- The value stored at `k`. -/
def get? (d : Dict κ α) (k : κ) : Option α := assoc k d.items

/-- The value stored at `k`, or a default. -/
def getD (d : Dict κ α) (k : κ) (v : α) : α := (d.get? k).getD v

/-- Replace the value of an existing key in place. -/
def replace (k : κ) (v : α) (l : List (κ × α)) : List (κ × α) :=
  l.map fun p => if p.1 = k then (k, v) else p

theorem map_fst_replace (k : κ) (v : α) (l : List (κ × α)) :
    (replace k v l).map Prod.fst = l.map Prod.fst := by
  unfold replace
  rw [List.map_map]
  apply List.map_congr_left
  intro p _
  by_cases h : p.1 = k <;> simp [h]

theorem assoc_replace (k k' : κ) (v : α) : ∀ l : List (κ × α),
    assoc k' (replace k v l) = if k = k' ∧ k ∈ l.map Prod.fst then some v else assoc k' l
  | [] => by simp [replace, assoc]
  | (j, w) :: l => by
      have ih : assoc k' (replace k v l) = _ := assoc_replace k k' v l
      have hc : replace k v ((j, w) :: l) = (if j = k then (k, v) else (j, w)) :: replace k v l := rfl
      rw [hc]
      by_cases hj : j = k
      · by_cases hk : k = k'
        · simp [hj, hk, assoc]
        · simp [hj, hk, assoc, ih]
      · by_cases hk : k = k'
        · subst hk
          have hm : k ∈ ((j, w) :: l).map Prod.fst ↔ k ∈ l.map Prod.fst := by simp [Ne.symm hj]
          rw [if_neg hj]
          simp only [assoc, if_neg hj, ih, hm]
        · simp [hj, hk, assoc, ih]

/-- `d[k] = v`: an existing key keeps its position, a new key is appended. -/
def set (d : Dict κ α) (k : κ) (v : α) : Dict κ α :=
  if h : k ∈ d.keys then
    ⟨replace k v d.items, by rw [map_fst_replace]; exact d.nodup⟩
  else
    ⟨d.items ++ [(k, v)], by
      rw [List.map_append, List.nodup_append]
      refine ⟨d.nodup, by simp, ?_⟩
      intro a ha b hb
      simp only [List.map_cons, List.map_nil, List.mem_singleton] at hb
      rintro rfl
      exact h (hb ▸ ha)⟩

/-- `d.pop(k, None)`: remove a key if it is there. -/
def pop (d : Dict κ α) (k : κ) : Dict κ α :=
  ⟨d.items.filter (fun p => p.1 ≠ k), (List.filter_sublist.map _).nodup d.nodup⟩

/-- Remove every key of a list. -/
def popMany (d : Dict κ α) (ks : List κ) : Dict κ α := ks.foldl pop d

/-- `{k: v for (k, v) in ps}`: later pairs overwrite the value of earlier ones. -/
def ofPairs (ps : List (κ × α)) : Dict κ α := ps.foldl (fun d p => d.set p.1 p.2) empty

/-! ### Lookup after each operation -/

@[simp] theorem get?_empty (k : κ) : (empty : Dict κ α).get? k = none := rfl

theorem get?_eq_none_iff {d : Dict κ α} {k : κ} : d.get? k = none ↔ k ∉ d.keys :=
  assoc_eq_none_iff

theorem mem_keys_iff {d : Dict κ α} {k : κ} : k ∈ d.keys ↔ ∃ v, d.get? k = some v := by
  rw [← Option.ne_none_iff_exists']
  exact (not_iff_comm.mp get?_eq_none_iff.symm).symm

theorem mem_items_iff {d : Dict κ α} {k : κ} {v : α} : (k, v) ∈ d.items ↔ d.get? k = some v :=
  ⟨assoc_of_mem_nodup d.nodup, mem_of_assoc⟩

@[simp] theorem get?_set (d : Dict κ α) (k k' : κ) (v : α) :
    (d.set k v).get? k' = if k = k' then some v else d.get? k' := by
  unfold set get?
  split_ifs with h hk hk
  · rw [assoc_replace, if_pos ⟨hk, h⟩]
  · rw [assoc_replace, if_neg (fun hc => hk hc.1)]
  · have hnone : assoc k' d.items = none := assoc_eq_none_iff.mpr (hk ▸ h)
    simp [assoc_append, hnone, assoc, hk]
  · rw [assoc_append]
    simp [assoc, hk]

/-- What is read after a write is the written value or an old one. -/
theorem get?_set_cases {d : Dict κ α} {k k' : κ} {v w : α} (h : (d.set k v).get? k' = some w) :
    (k = k' ∧ v = w) ∨ (k ≠ k' ∧ d.get? k' = some w) := by
  rw [get?_set] at h
  by_cases hk : k = k'
  · rw [if_pos hk] at h
    exact .inl ⟨hk, Option.some.inj h⟩
  · rw [if_neg hk] at h
    exact .inr ⟨hk, h⟩

theorem assoc_filter_ne (k k' : κ) : ∀ l : List (κ × α),
    assoc k' (l.filter (fun p => p.1 ≠ k)) = if k = k' then none else assoc k' l
  | [] => by simp [assoc]
  | (j, w) :: l => by
      have ih := assoc_filter_ne k k' l
      by_cases hj : j = k
      · subst hj
        rw [List.filter_cons_of_neg (by simp), ih]
        by_cases hk : j = k' <;> simp [assoc, hk]
      · rw [List.filter_cons_of_pos (by simpa using hj)]
        simp only [assoc, ih]
        by_cases hk : k = k'
        · subst hk; simp [hj]
        · simp [hk]

@[simp] theorem get?_pop (d : Dict κ α) (k k' : κ) :
    (d.pop k).get? k' = if k = k' then none else d.get? k' :=
  assoc_filter_ne k k' d.items

@[simp] theorem get?_popMany (ks : List κ) (d : Dict κ α) (k : κ) :
    (d.popMany ks).get? k = if k ∈ ks then none else d.get? k := by
  induction ks generalizing d with
  | nil => simp [popMany]
  | cons j ks ih =>
      have h : (d.popMany (j :: ks)) = (d.pop j).popMany ks := rfl
      rw [h, ih, get?_pop]
      by_cases hj : j = k
      · subst hj; simp
      · simp [hj, Ne.symm hj]

theorem mem_keys_set {d : Dict κ α} {k k' : κ} {v : α} :
    k' ∈ (d.set k v).keys ↔ k' = k ∨ k' ∈ d.keys := by
  simp only [mem_keys_iff, get?_set]
  by_cases h : k = k'
  · simp [h]
  · simp [h, Ne.symm h]

/-- Storing the value that is there changes nothing. -/
theorem set_eq_self {d : Dict κ α} {k : κ} {v : α} (h : d.get? k = some v) : d.set k v = d := by
  have hk : k ∈ d.keys := mem_keys_iff.mpr ⟨v, h⟩
  have hsame : replace k v d.items = d.items := by
    unfold replace
    nth_rewrite 2 [← List.map_id d.items]
    apply List.map_congr_left
    rintro ⟨j, w⟩ hj
    split_ifs with hjk
    · obtain rfl : j = k := hjk
      have hw := mem_items_iff.mp hj
      rw [h, Option.some.injEq] at hw
      rw [hw]
      rfl
    · rfl
  unfold set
  rw [dif_pos hk]
  cases d
  simp only [mk.injEq]
  exact hsame

@[simp] theorem getD_set (d : Dict κ α) (k k' : κ) (v w : α) :
    (d.set k v).getD k' w = if k = k' then v else d.getD k' w := by
  unfold getD
  rw [get?_set]
  split_ifs <;> rfl

/-! ### Tables accumulated over a list of edges -/

/-- Counting the edges that leave each node. -/
theorem getD_foldl_count {β : Type} (es : List (κ × β)) (d : Dict κ ℤ) (x : κ) :
    (es.foldl (fun d e => d.set e.1 (d.getD e.1 0 + 1)) d).getD x 0 =
      d.getD x 0 + (es.map Prod.fst).count x := by
  induction es generalizing d with
  | nil => simp
  | cons e es ih =>
      rw [List.foldl_cons, ih, getD_set, List.map_cons, List.count_cons]
      by_cases h : e.1 = x
      · simp [h]
        ring
      · simp [h]

theorem mem_keys_foldl_count {β : Type} {es : List (κ × β)} {d : Dict κ ℤ} {x : κ} :
    x ∈ (es.foldl (fun d e => d.set e.1 (d.getD e.1 0 + 1)) d).keys ↔
      x ∈ d.keys ∨ x ∈ es.map Prod.fst := by
  induction es generalizing d with
  | nil => simp
  | cons e es ih =>
      rw [List.foldl_cons, ih, mem_keys_set, List.map_cons, List.mem_cons]
      tauto

/-- Grouping the edges by the node they enter. -/
theorem getD_foldl_group {β : Type} (es : List (β × κ)) (d : Dict κ (List β)) (x : κ) :
    (es.foldl (fun d e => d.set e.2 (d.getD e.2 [] ++ [e.1])) d).getD x [] =
      d.getD x [] ++ (es.filter (fun e => e.2 = x)).map Prod.fst := by
  induction es generalizing d with
  | nil => simp
  | cons e es ih =>
      rw [List.foldl_cons, ih, getD_set]
      by_cases h : e.2 = x <;> simp [h]

/-! ### Dictionaries built from a list of pairs -/

theorem foldl_set_get? (ps : List (κ × α)) (d : Dict κ α) (k : κ) :
    (ps.foldl (fun d p => d.set p.1 p.2) d).get? k = (assoc k ps.reverse).or (d.get? k) := by
  induction ps generalizing d with
  | nil => simp [assoc]
  | cons p ps ih =>
      rw [List.foldl_cons, ih, get?_set, List.reverse_cons, assoc_append]
      cases assoc k ps.reverse with
      | some v => simp
      | none => by_cases h : p.1 = k <;> simp [assoc, h]

theorem get?_ofPairs (ps : List (κ × α)) (k : κ) : (ofPairs ps).get? k = assoc k ps.reverse := by
  unfold ofPairs
  rw [foldl_set_get?]
  simp

theorem mem_of_get?_ofPairs {ps : List (κ × α)} {k : κ} {v : α}
    (h : (ofPairs ps).get? k = some v) : (k, v) ∈ ps := by
  rw [get?_ofPairs] at h
  exact List.mem_reverse.mp (mem_of_assoc h)

theorem get?_ofPairs_eq_none {ps : List (κ × α)} {k : κ} :
    (ofPairs ps).get? k = none ↔ k ∉ ps.map Prod.fst := by
  rw [get?_ofPairs, assoc_eq_none_iff]
  simp

theorem mem_keys_ofPairs {ps : List (κ × α)} {k : κ} :
    k ∈ (ofPairs ps).keys ↔ k ∈ ps.map Prod.fst := by
  rw [← not_iff_not, ← get?_eq_none_iff, get?_ofPairs_eq_none]

/-- Fresh keys are appended in order. -/
theorem items_foldl_set (ps : List (κ × α)) (d : Dict κ α) (hn : (d.keys ++ ps.map Prod.fst).Nodup) :
    (ps.foldl (fun d p => d.set p.1 p.2) d).items = d.items ++ ps := by
  induction ps generalizing d with
  | nil => simp
  | cons p ps ih =>
      have hp : p.1 ∉ d.keys := fun hmem =>
        (List.nodup_append.mp hn).2.2 p.1 hmem p.1 List.mem_cons_self rfl
      have hset : (d.set p.1 p.2).items = d.items ++ [p] := by
        unfold set
        rw [dif_neg hp]
      rw [List.foldl_cons, ih, hset, List.append_assoc, List.singleton_append]
      unfold keys at hn ⊢
      rw [hset]
      simpa using hn

/-- With distinct keys, a dictionary is the list it was built from. -/
theorem items_ofPairs {ps : List (κ × α)} (hn : (ps.map Prod.fst).Nodup) : (ofPairs ps).items = ps :=
  items_foldl_set ps empty hn

/-- With distinct keys, every pair is found again. -/
theorem get?_ofPairs_of_nodup {ps : List (κ × α)} {k : κ} {v : α}
    (hn : (ps.map Prod.fst).Nodup) (h : (k, v) ∈ ps) : (ofPairs ps).get? k = some v := by
  rw [← mem_items_iff, items_ofPairs hn]
  exact h

end Dict
end Lib
