import JAgent.JsonRoundTrip

/-! # JSON text with sorted keys

`json.dumps(…, sort_keys=True)` writes the entries of every object in the order of their keys, so
`json.loads` gives the value with its entries in that order (`jsonLoads_sortedDumps`).  To the host
language it is the same value: two objects are equal when they have the same entries, in whatever
order (`pyEq_sortKeys`). -/

namespace JAgent

namespace Value

/-! ### Induction over the nesting -/

section
variable {P : Value → Prop} (null : P .null) (bool : ∀ b, P (.bool b)) (int : ∀ n, P (.int n))
  (float : ∀ d, P (.float d)) (str : ∀ s, P (.str s))
  (arr : ∀ xs : List Value, (∀ v ∈ xs, P v) → P (.arr xs))
  (obj : ∀ a : Obj, (∀ p ∈ a, P p.2) → P (.obj a))
include null bool int float str arr obj

set_option linter.unusedSectionVars false in
mutual
/-- A property of a value follows from that of its elements and of the values of its entries. -/
@[elab_as_elim]
theorem nesting : ∀ v : Value, P v
  | .null => null
  | .bool b => bool b
  | .int n => int n
  | .float d => float d
  | .str s => str s
  | .arr xs => arr xs (nesting_list xs)
  | .obj a => obj a (nesting_obj a)
theorem nesting_list : ∀ xs : List Value, ∀ v ∈ xs, P v
  | [] => fun _ hv => absurd hv List.not_mem_nil
  | v :: vs => List.forall_mem_cons.mpr ⟨nesting v, nesting_list vs⟩
theorem nesting_obj : ∀ a : List (String × Value), ∀ p ∈ a, P p.2
  | [] => fun _ hp => absurd hp List.not_mem_nil
  | (_, v) :: a => List.forall_mem_cons.mpr ⟨nesting v, nesting_obj a⟩
end

end

theorem sortKeysList_eq_map (xs : List Value) : sortKeysList xs = xs.map sortKeys := by
  induction xs with
  | nil => rfl
  | cons v vs ih => rw [sortKeysList, ih, List.map_cons]

theorem sortKeysObj_eq_map (a : Obj) : sortKeysObj a = a.map fun p => (p.1, p.2.sortKeys) := by
  induction a with
  | nil => rfl
  | cons p a ih =>
      obtain ⟨k, v⟩ := p
      rw [sortKeysObj, ih, List.map_cons]

/-- The entries of an object in the order of their keys. -/
theorem sortKeys_obj (a : Obj) : ∃ b : Obj, sortKeys (.obj a) = .obj b ∧
    b.Perm (a.map fun p => (p.1, p.2.sortKeys)) := by
  refine ⟨_, by rw [sortKeys], ?_⟩
  rw [← sortKeysObj_eq_map]
  exact List.perm_insertionSort _ _

theorem map_fst_sorted {a b : Obj} (h : b.Perm (a.map fun p => (p.1, p.2.sortKeys))) :
    (b.map Prod.fst).Perm (a.map Prod.fst) := by
  have hmap := h.map Prod.fst
  rw [List.map_map] at hmap
  exact hmap

theorem mem_floatsList {d : Dyadic} {xs : List Value} :
    d ∈ floatsList xs ↔ ∃ v ∈ xs, d ∈ v.floats := by
  induction xs with
  | nil => simp [floatsList]
  | cons v vs ih => simp [floatsList, ih]

theorem mem_floatsObj {d : Dyadic} {a : Obj} : d ∈ floatsObj a ↔ ∃ p ∈ a, d ∈ p.2.floats := by
  induction a with
  | nil => simp [floatsObj]
  | cons p a ih =>
      obtain ⟨k, v⟩ := p
      simp [floatsObj, ih]

/-! ### What the order does not change -/

theorem distinct_sortKeys (v : Value) (h : v.distinct = true) : v.sortKeys.distinct = true := by
  induction v using nesting with
  | null | bool | int | float | str =>
      rw [sortKeys] <;> first | exact h | simp
  | arr xs ih =>
      rw [sortKeys, sortKeysList_eq_map, distinct_arr, distinctList_iff]
      rw [distinct_arr, distinctList_iff] at h
      intro w hw
      obtain ⟨v, hv, rfl⟩ := List.mem_map.mp hw
      exact ih v hv (h v hv)
  | obj a ih =>
      obtain ⟨b, hb, hperm⟩ := sortKeys_obj a
      rw [distinct_obj, Bool.and_eq_true, decide_eq_true_eq, distinctObj_iff] at h
      rw [hb, distinct_obj, Bool.and_eq_true, decide_eq_true_eq, distinctObj_iff]
      refine ⟨(map_fst_sorted hperm).nodup_iff.mpr h.1, fun q hq => ?_⟩
      obtain ⟨p, hp, rfl⟩ := List.mem_map.mp (hperm.mem_iff.mp hq)
      exact ih p hp (h.2 p hp)

theorem mem_floats_sortKeys {d : Dyadic} (v : Value) (h : d ∈ v.sortKeys.floats) : d ∈ v.floats := by
  induction v using nesting with
  | null | bool | int | float | str =>
      rw [sortKeys] at h <;> first | exact h | simp
  | arr xs ih =>
      rw [sortKeys, sortKeysList_eq_map, floats, mem_floatsList] at h
      obtain ⟨w, hw, hd⟩ := h
      obtain ⟨v, hv, rfl⟩ := List.mem_map.mp hw
      rw [floats, mem_floatsList]
      exact ⟨v, hv, ih v hv hd⟩
  | obj a ih =>
      obtain ⟨b, hb, hperm⟩ := sortKeys_obj a
      rw [hb, floats, mem_floatsObj] at h
      obtain ⟨q, hq, hd⟩ := h
      obtain ⟨p, hp, rfl⟩ := List.mem_map.mp (hperm.mem_iff.mp hq)
      rw [floats, mem_floatsObj]
      exact ⟨p, hp, ih p hp hd⟩

theorem pyEqList_map {f : Value → Value} {xs : List Value} (h : ∀ v ∈ xs, pyEq (f v) v = true) :
    pyEqList (xs.map f) xs = true := by
  induction xs with
  | nil => rfl
  | cons v vs ih =>
      rw [List.forall_mem_cons] at h
      rw [List.map_cons, pyEqList, h.1, ih h.2]
      rfl

theorem pyEqObj_of_forall {a b : Obj}
    (h : ∀ p ∈ a, ∃ w, Lib.assoc p.1 b = some w ∧ pyEq p.2 w = true) : pyEqObj a b = true := by
  induction a with
  | nil => rfl
  | cons p a ih =>
      obtain ⟨k, v⟩ := p
      rw [List.forall_mem_cons] at h
      obtain ⟨⟨w, hw, heq⟩, hrest⟩ := h
      rw [pyEqObj, ih hrest, hw, Bool.and_true]
      exact heq

/-- **With its keys sorted a value is equal to itself**, in the sense of the host language. -/
theorem pyEq_sortKeys (v : Value) (h : v.distinct = true) : pyEq v.sortKeys v = true := by
  induction v using nesting with
  | null | bool | int | float | str => simp [sortKeys, pyEq, num?]
  | arr xs ih =>
      rw [distinct_arr, distinctList_iff] at h
      rw [sortKeys, sortKeysList_eq_map, pyEq]
      exact pyEqList_map fun v hv => ih v hv (h v hv)
  | obj a ih =>
      obtain ⟨b, hb, hperm⟩ := sortKeys_obj a
      rw [distinct_obj, Bool.and_eq_true, decide_eq_true_eq, distinctObj_iff] at h
      have hlen : b.length = a.length := by rw [hperm.length_eq, List.length_map]
      rw [hb, pyEq, Bool.and_eq_true, hlen]
      refine ⟨beq_self_eq_true _, pyEqObj_of_forall fun q hq => ?_⟩
      obtain ⟨p, hp, rfl⟩ := List.mem_map.mp (hperm.mem_iff.mp hq)
      exact ⟨p.2, Lib.assoc_of_mem_nodup h.1 hp, ih p hp (h.2 p hp)⟩

end Value

/-! ### Reading it back -/

section
variable [Py]

/-- The order of the keys is settled before the text is written. -/
theorem dumpText_eq_keepOrder (ascii : Bool) (v : Value) :
    dumpText { ensureAscii := ascii } v = dumpText (keepOrder ascii) v := by
  induction v using Value.nesting with
  | null | bool | int | float | str => simp only [dumpText, keepOrder]
  | arr xs ih =>
      have hlist : dumpTextList { ensureAscii := ascii } xs = dumpTextList (keepOrder ascii) xs := by
        induction xs with
        | nil => rfl
        | cons v vs ihs =>
            rw [List.forall_mem_cons] at ih
            rw [dumpTextList, dumpTextList, ih.1, ihs ih.2]
      rw [dumpText, dumpText, hlist]
      rfl
  | obj a ih =>
      have hobj : dumpTextObj { ensureAscii := ascii } a = dumpTextObj (keepOrder ascii) a := by
        induction a with
        | nil => rfl
        | cons p a iha =>
            obtain ⟨k, v⟩ := p
            rw [List.forall_mem_cons] at ih
            rw [dumpTextObj, dumpTextObj, ih.1, iha ih.2]
            rfl
      rw [dumpText, dumpText, hobj]
      rfl

/-- **Text with sorted keys is read back as the value with sorted keys.** -/
theorem jsonLoads_sortedDumps (parseFloat : String → Option Dyadic) (ascii : Bool) {v : Value}
    (hd : v.distinct = true) (hf : ∀ d ∈ v.floats, FloatReadable parseFloat d) :
    jsonLoads parseFloat (dumps { ensureAscii := ascii } v) = some v.sortKeys := by
  have htext : dumps { ensureAscii := ascii } v = dumps (keepOrder ascii) v.sortKeys :=
    dumpText_eq_keepOrder ascii v.sortKeys
  rw [htext]
  apply jsonLoads_dumps parseFloat ascii (v.distinct_sortKeys hd)
  intro d hd
  exact hf d (v.mem_floats_sortKeys hd)

end

end JAgent
