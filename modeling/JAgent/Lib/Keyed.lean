import JAgent.Lib.Counting
import JAgent.Lib.Dict

/-! # Passes over interleaved events

A pass over a stream keeps a state in which every key has a part of its own, and an event changes at most
the part of its key.  Then what a key has after the pass is what the events of this key alone make of it
(`look_foldl`): the events of the other keys may come in between in any way.

Two things follow for a part that is there or not: it is there once an event has put it there
(`foldl_isSome`), and a number in it that some events raise by one counts these events (`foldl_count`). -/

namespace Lib.Keyed
variable {σ ε κ β : Type} [DecidableEq κ]
variable {step : σ → ε → σ} {look : σ → κ → β} {key : ε → Option κ} {next : ε → β → β}

/-- An event changes the part of its key and no other. -/
def Local (step : σ → ε → σ) (look : σ → κ → β) (key : ε → Option κ) (next : ε → β → β) :
    Prop :=
  ∀ s e k, look (step s e) k = if key e = some k then next e (look s k) else look s k

/-- The events of a key. -/
def own (key : ε → Option κ) (es : List ε) (k : κ) : List ε := es.filter fun e => key e = some k

theorem own_append (es es' : List ε) (k : κ) : own key (es ++ es') k = own key es k ++ own key es' k :=
  List.filter_append ..

theorem mem_own {es : List ε} {k : κ} {e : ε} : e ∈ own key es k ↔ e ∈ es ∧ key e = some k := by
  rw [own, List.mem_filter, decide_eq_true_eq]

/-- The last event with a property. -/
theorem exists_last {p : ε → Prop} {es : List ε} (h : ∃ e ∈ es, p e) :
    ∃ pre e post, es = pre ++ e :: post ∧ p e ∧ ∀ e' ∈ post, ¬p e' := by
  induction es with
  | nil =>
      obtain ⟨e, he, -⟩ := h
      cases he
  | cons a es ih =>
      by_cases hlater : ∃ e ∈ es, p e
      · obtain ⟨pre, e, post, rfl, he, hpost⟩ := ih hlater
        exact ⟨a :: pre, e, post, rfl, he, hpost⟩
      · obtain ⟨e, he, hp⟩ := h
        obtain rfl | he := List.mem_cons.mp he
        · exact ⟨[], e, es, rfl, hp, fun e' he' hp' => hlater ⟨e', he', hp'⟩⟩
        · exact absurd ⟨e, he, hp⟩ hlater

/-- **What a key has after a pass** is what its own events make of it. -/
theorem look_foldl (h : Local step look key next) (es : List ε) (s : σ) (k : κ) :
    look (es.foldl step s) k = (own key es k).foldl (fun b e => next e b) (look s k) := by
  induction es generalizing s with
  | nil => rfl
  | cons e es ih =>
      rw [List.foldl_cons, ih, h]
      by_cases hk : key e = some k
      · rw [if_pos hk, own, own, List.filter_cons_of_pos (by simpa using hk), List.foldl_cons]
      · rw [if_neg hk, own, own, List.filter_cons_of_neg (by simpa using hk)]

section parts
variable {α : Type} {next : ε → Option α → Option α}

/-- A part that stays is there once an event has put it there. -/
theorem foldl_isSome {opens : ε → Bool} (h : ∀ e b, (next e b).isSome = (b.isSome || opens e)) (es : List ε)
    (b : Option α) : (es.foldl (fun b e => next e b) b).isSome = (b.isSome || es.any opens) := by
  induction es generalizing b with
  | nil => rw [List.any_nil, Bool.or_false, List.foldl_nil]
  | cons e es ih => rw [List.foldl_cons, ih, h, List.any_cons, Bool.or_assoc]

end parts

/-- A number that some events raise by one counts these events. -/
theorem foldl_count {p : ε → Bool} {c : β → ℕ} (h : ∀ e b, c (next e b) = c b + if p e then 1 else 0)
    (es : List ε) (b : β) : c (es.foldl (fun b e => next e b) b) = c b + es.countP p := by
  induction es generalizing b with
  | nil => rfl
  | cons e es ih =>
      rw [List.foldl_cons, ih, h, List.countP_cons]
      omega

/-! ### Tables of counts -/

section tally
variable {α : Type} {next : ε → Option α → α}

/-- Give the entry of the key of an event a new value; an event without a key is passed over. -/
def tally (key : ε → Option κ) (next : ε → Option α → α) (d : Dict κ α) (e : ε) : Dict κ α :=
  match key e with
  | none => d
  | some k => d.set k (next e (d.get? k))

/-- The table after a pass. -/
def table (key : ε → Option κ) (next : ε → Option α → α) (es : List ε) : Dict κ α :=
  es.foldl (tally key next) .empty

theorem local_tally : Local (tally key next) Dict.get? key fun e entry => some (next e entry) := by
  intro d e k
  rw [tally]
  cases hk : key e with
  | none => rw [if_neg (by simp)]
  | some k' =>
      simp only [Dict.get?_set, Option.some.injEq]
      split_ifs with h
      · rw [h]
      · rfl

theorem get?_table (es : List ε) (k : κ) : (table key next es).get? k =
    (own key es k).foldl (fun entry e => some (next e entry)) none := by
  rw [table, look_foldl local_tally]
  rfl

/-- A key is in the table when it is the key of an event. -/
theorem mem_keys_table {es : List ε} {k : κ} : k ∈ (table key next es).keys ↔ ∃ e ∈ es, key e = some k := by
  have hsome := @foldl_isSome ε α (fun e entry => some (next e entry)) (fun _ => true) (by simp) (own key es k) none
  rw [← get?_table] at hsome
  rw [Dict.mem_keys_iff, ← Option.isSome_iff_exists, hsome, Option.isSome_none, Bool.false_or, List.any_eq_true]
  constructor
  · rintro ⟨e, he, -⟩
    exact ⟨e, mem_own.mp he⟩
  · rintro ⟨e, he⟩
    exact ⟨e, mem_own.mpr he, rfl⟩

/-- A number in an entry that some events raise by one counts these events of the key. -/
theorem count_of_get?_table {p : ε → Bool} {c : α → ℕ} {es : List ε} {k : κ} {v : α}
    (h : ∀ e entry, c (next e entry) = (entry.map c).getD 0 + if p e then 1 else 0)
    (hv : (table key next es).get? k = some v) : c v = (own key es k).countP p := by
  have hcount := @foldl_count ε (Option α) (fun e entry => some (next e entry)) p
    (fun entry => (entry.map c).getD 0) h (own key es k) none
  rw [← get?_table, hv] at hcount
  simpa using hcount

/-- **The numbers of a table add up** to the number of the events that raise them. -/
theorem sum_table {p : ε → Bool} {c : α → ℕ} {es : List ε}
    (h : ∀ e entry, c (next e entry) = (entry.map c).getD 0 + if p e then 1 else 0)
    (hp : ∀ e ∈ es, p e = true → key e ≠ none) :
    ((table key next es).items.map fun entry => c entry.2).sum = es.countP p := by
  have hgroups : (table key next es).items.map (fun entry => c entry.2) =
      (table key next es).keys.map fun k => (own key es k).countP p := by
    rw [Dict.keys, List.map_map]
    apply List.map_congr_left
    intro entry hentry
    exact count_of_get?_table h (Dict.mem_items_iff.mp hentry)
  have hnodup : (table key next es).keys.Nodup := (table key next es).nodup
  have hall : ∀ e ∈ es.filter p, key e ∈ (table key next es).keys.toFinset.map .some := by
    intro e he
    obtain ⟨he, hpe⟩ := List.mem_filter.mp he
    obtain ⟨k, hk⟩ := Option.ne_none_iff_exists'.mp (hp e he hpe)
    rw [hk, Finset.mem_map]
    exact ⟨k, List.mem_toFinset.mpr (mem_keys_table.mpr ⟨e, he, hk⟩), rfl⟩
  have hgroup : ∀ k, Counting.inGroup key (es.filter p) p (some k) = (own key es k).countP p := by
    intro k
    rw [Counting.inGroup, own, List.filter_comm, List.countP_filter]
    simp only [Bool.and_self]
  have hsum := Counting.countP_eq_sum (p := p) hall
  rw [Finset.sum_map, List.countP_filter] at hsum
  simp only [Bool.and_self] at hsum
  rw [hgroups, ← List.sum_toFinset _ hnodup, hsum]
  exact Finset.sum_congr rfl fun k _ => (hgroup k).symm

end tally

end Lib.Keyed
