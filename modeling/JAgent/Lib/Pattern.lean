import Mathlib.Data.List.Basic

/-! # Regular expressions

Regular expressions over classes of letters.  A list is matched by taking the derivative of the expression by
each of its letters; `accepts_iff` says that this decides whether the expression spells the list.  The `spells_`
lemmas give the lists of the expressions that programs write down: a word, a choice of words, letters of one class
repeated any number of times, at least once, or at most `n` times. -/

namespace Lib

/-- A regular expression; `one p` is a class of letters. -/
inductive Pattern (α : Type) where
  | fail
  | empty
  | one (p : α → Bool)
  | seq (first second : Pattern α)
  | either (left right : Pattern α)
  | many (body : Pattern α)

namespace Pattern
variable {α : Type}

/-- The expression spells the list. -/
inductive Spells : Pattern α → List α → Prop
  | empty : Spells empty []
  | one {p : α → Bool} {c : α} (h : p c = true) : Spells (one p) [c]
  | seq {a b : Pattern α} {u v : List α} (hu : Spells a u) (hv : Spells b v) : Spells (seq a b) (u ++ v)
  | left {a b : Pattern α} {u : List α} (h : Spells a u) : Spells (either a b) u
  | right {a b : Pattern α} {u : List α} (h : Spells b u) : Spells (either a b) u
  | stop {a : Pattern α} : Spells (many a) []
  | more {a : Pattern α} {u v : List α} (hu : Spells a u) (hv : Spells (many a) v) : Spells (many a) (u ++ v)

/-- The expression spells the empty list. -/
def nullable : Pattern α → Bool
  | fail => false
  | empty => true
  | one _ => false
  | seq a b => a.nullable && b.nullable
  | either a b => a.nullable || b.nullable
  | many _ => true

/-- What the expression spells behind the letter `c`. -/
def deriv (c : α) : Pattern α → Pattern α
  | fail => fail
  | empty => fail
  | one p => if p c then empty else fail
  | seq a b => if a.nullable then either (seq (a.deriv c) b) (b.deriv c) else seq (a.deriv c) b
  | either a b => either (a.deriv c) (b.deriv c)
  | many a => seq (a.deriv c) (many a)

/-- Match the whole list. -/
def accepts : Pattern α → List α → Bool
  | r, [] => r.nullable
  | r, c :: rest => (r.deriv c).accepts rest

/-! ### The matcher is right -/

section spells
variable {a b : Pattern α} {w : List α}

theorem not_spells_fail : ¬ (fail : Pattern α).Spells w := by
  intro h
  cases h

theorem spells_empty : (empty : Pattern α).Spells w ↔ w = [] := by
  constructor
  · intro h
    cases h
    rfl
  · rintro rfl
    exact .empty

theorem spells_one {p : α → Bool} : (one p).Spells w ↔ ∃ c, p c = true ∧ w = [c] := by
  constructor
  · intro h
    cases h with
    | one h => exact ⟨_, h, rfl⟩
  · rintro ⟨c, hc, rfl⟩
    exact .one hc

theorem spells_seq : (seq a b).Spells w ↔ ∃ u v, w = u ++ v ∧ a.Spells u ∧ b.Spells v := by
  constructor
  · intro h
    cases h with
    | seq hu hv => exact ⟨_, _, rfl, hu, hv⟩
  · rintro ⟨u, v, rfl, hu, hv⟩
    exact .seq hu hv

theorem spells_either : (either a b).Spells w ↔ a.Spells w ∨ b.Spells w := by
  constructor
  · intro h
    cases h with
    | left h => exact .inl h
    | right h => exact .inr h
  · rintro (h | h)
    · exact .left h
    · exact .right h

theorem nullable_iff (r : Pattern α) : r.nullable = true ↔ r.Spells [] := by
  induction r with
  | fail => exact iff_of_false Bool.false_ne_true not_spells_fail
  | empty => exact iff_of_true rfl .empty
  | one p =>
      refine iff_of_false Bool.false_ne_true ?_
      intro h
      cases h
  | seq a b iha ihb =>
      rw [nullable, Bool.and_eq_true, iha, ihb, spells_seq]
      constructor
      · rintro ⟨ha, hb⟩
        exact ⟨[], [], rfl, ha, hb⟩
      · rintro ⟨u, v, huv, hu, hv⟩
        obtain ⟨rfl, rfl⟩ := List.append_eq_nil_iff.mp huv.symm
        exact ⟨hu, hv⟩
  | either a b iha ihb => rw [nullable, Bool.or_eq_true, iha, ihb, spells_either]
  | many a _ => exact iff_of_true rfl .stop

/-- A repetition that spells a letter and more begins with a turn that spells the letter. -/
theorem spells_many_cons {c : α} {rest : List α} (h : (many a).Spells (c :: rest)) :
    ∃ u v, rest = u ++ v ∧ a.Spells (c :: u) ∧ (many a).Spells v := by
  -- the turns that spell nothing are skipped
  generalize hr : many a = r at h
  generalize hw : c :: rest = w at h
  induction h with
  | @more a' turn later hturn hlater _ ih =>
      obtain rfl := Pattern.many.inj hr
      cases turn with
      | nil => exact ih rfl hw
      | cons d u =>
          obtain ⟨rfl, rfl⟩ := List.cons.inj hw
          exact ⟨u, later, rfl, hturn, hlater⟩
  | stop => exact absurd hw (List.cons_ne_nil c rest)
  | empty | one | seq | left | right => exact absurd hr (by simp)

theorem deriv_iff (r : Pattern α) (c : α) (w : List α) : (r.deriv c).Spells w ↔ r.Spells (c :: w) := by
  induction r generalizing w with
  | fail => exact iff_of_false not_spells_fail not_spells_fail
  | empty =>
      refine iff_of_false not_spells_fail ?_
      rw [spells_empty]
      exact List.cons_ne_nil c w
  | one p =>
      rw [deriv, spells_one]
      split_ifs with hp
      · rw [spells_empty]
        constructor
        · rintro rfl
          exact ⟨c, hp, rfl⟩
        · rintro ⟨d, -, h⟩
          exact (List.cons.inj h).2
      · refine iff_of_false not_spells_fail ?_
        rintro ⟨d, hd, h⟩
        rw [(List.cons.inj h).1] at hp
        exact hp hd
  | seq a b iha ihb =>
      have hfirst : (seq (a.deriv c) b).Spells w ↔ ∃ u v, w = u ++ v ∧ a.Spells (c :: u) ∧ b.Spells v := by
        simp only [spells_seq, iha]
      have hboth : (seq a b).Spells (c :: w) ↔
          (∃ u v, w = u ++ v ∧ a.Spells (c :: u) ∧ b.Spells v) ∨ a.Spells [] ∧ b.Spells (c :: w) := by
        rw [spells_seq]
        constructor
        · rintro ⟨u, v, huv, hu, hv⟩
          cases u with
          | nil =>
              rw [List.nil_append] at huv
              exact .inr ⟨hu, huv ▸ hv⟩
          | cons d u =>
              obtain ⟨rfl, rfl⟩ := List.cons.inj huv
              exact .inl ⟨u, v, rfl, hu, hv⟩
        · rintro (⟨u, v, rfl, hu, hv⟩ | ⟨hu, hv⟩)
          · exact ⟨c :: u, v, rfl, hu, hv⟩
          · exact ⟨[], c :: w, rfl, hu, hv⟩
      rw [deriv, hboth]
      split_ifs with hnull
      · rw [spells_either, hfirst, ihb, and_iff_right ((nullable_iff a).mp hnull)]
      · have hempty : ¬ a.Spells [] := fun h => hnull ((nullable_iff a).mpr h)
        rw [hfirst, or_iff_left (fun h => hempty h.1)]
  | either a b iha ihb => rw [deriv, spells_either, spells_either, iha, ihb]
  | many a iha =>
      rw [deriv, spells_seq]
      constructor
      · rintro ⟨u, v, rfl, hu, hv⟩
        exact .more ((iha u).mp hu) hv
      · intro h
        obtain ⟨u, v, rfl, hu, hv⟩ := spells_many_cons h
        exact ⟨u, v, rfl, (iha u).mpr hu, hv⟩

/-- **The matcher accepts what the expression spells.** -/
theorem accepts_iff (r : Pattern α) (w : List α) : r.accepts w = true ↔ r.Spells w := by
  induction w generalizing r with
  | nil => exact nullable_iff r
  | cons c rest ih => rw [accepts, ih, deriv_iff]

end spells

/-! ### Words, choices and repetitions of letters -/

section words
variable [DecidableEq α]

/-- One word. -/
def word (w : List α) : Pattern α := w.foldr (fun c rest => seq (one fun d => decide (d = c)) rest) empty

/-- One of several words. -/
def words (ws : List (List α)) : Pattern α := ws.foldr (fun w rest => either (word w) rest) fail

theorem spells_word {w u : List α} : (word w).Spells u ↔ u = w := by
  induction w generalizing u with
  | nil => exact spells_empty
  | cons c rest ih =>
      show (seq (one fun d => decide (d = c)) (word rest)).Spells u ↔ _
      rw [spells_seq]
      constructor
      · rintro ⟨first, back, rfl, hfirst, hback⟩
        obtain ⟨d, hd, rfl⟩ := spells_one.mp hfirst
        rw [of_decide_eq_true hd, ih.mp hback]
        rfl
      · rintro rfl
        exact ⟨[c], rest, rfl, spells_one.mpr ⟨c, decide_eq_true rfl, rfl⟩, ih.mpr rfl⟩

theorem spells_words {ws : List (List α)} {u : List α} : (words ws).Spells u ↔ u ∈ ws := by
  induction ws with
  | nil => exact iff_of_false not_spells_fail List.not_mem_nil
  | cons w rest ih =>
      show (either (word w) (words rest)).Spells u ↔ _
      rw [spells_either, spells_word, ih, List.mem_cons]

theorem spells_word_seq {w u : List α} {r : Pattern α} :
    (seq (word w) r).Spells u ↔ ∃ rest, u = w ++ rest ∧ r.Spells rest := by
  rw [spells_seq]
  constructor
  · rintro ⟨front, rest, rfl, hfront, hrest⟩
    exact ⟨rest, by rw [spells_word.mp hfront], hrest⟩
  · rintro ⟨rest, rfl, hrest⟩
    exact ⟨w, rest, rfl, spells_word.mpr rfl, hrest⟩

end words

section repeats
variable {p : α → Bool} {w : List α}

theorem spells_many_one : (many (one p)).Spells w ↔ ∀ c ∈ w, p c = true := by
  induction w with
  | nil => exact iff_of_true .stop (by simp)
  | cons c rest ih =>
      rw [List.forall_mem_cons, ← ih]
      constructor
      · intro h
        obtain ⟨u, v, rfl, hu, hv⟩ := spells_many_cons h
        obtain ⟨d, hd, heq⟩ := spells_one.mp hu
        obtain ⟨rfl, rfl⟩ := List.cons.inj heq
        exact ⟨hd, hv⟩
      · rintro ⟨hc, hrest⟩
        exact Spells.more (spells_one.mpr ⟨c, hc, rfl⟩) hrest

/-- At least one letter of a class. -/
def some1 (p : α → Bool) : Pattern α := seq (one p) (many (one p))

theorem spells_some1 : (some1 p).Spells w ↔ w ≠ [] ∧ ∀ c ∈ w, p c = true := by
  rw [some1, spells_seq]
  constructor
  · rintro ⟨u, v, rfl, hu, hv⟩
    obtain ⟨c, hc, rfl⟩ := spells_one.mp hu
    exact ⟨List.cons_ne_nil c v, List.forall_mem_cons.mpr ⟨hc, spells_many_one.mp hv⟩⟩
  · rintro ⟨hne, hall⟩
    obtain ⟨c, rest, rfl⟩ := List.exists_cons_of_ne_nil hne
    obtain ⟨hc, hrest⟩ := List.forall_mem_cons.mp hall
    exact ⟨[c], rest, rfl, spells_one.mpr ⟨c, hc, rfl⟩, spells_many_one.mpr hrest⟩

/-- At most `n` letters of a class. -/
def atMost (p : α → Bool) : ℕ → Pattern α
  | 0 => empty
  | n + 1 => either empty (seq (one p) (atMost p n))

theorem spells_atMost {n : ℕ} : (atMost p n).Spells w ↔ w.length ≤ n ∧ ∀ c ∈ w, p c = true := by
  induction n generalizing w with
  | zero =>
      rw [atMost, spells_empty]
      constructor
      · rintro rfl
        simp
      · rintro ⟨h, -⟩
        exact List.length_eq_zero_iff.mp (by omega)
  | succ n ih =>
      rw [atMost, spells_either, spells_empty, spells_seq]
      constructor
      · rintro (rfl | ⟨u, v, rfl, hu, hv⟩)
        · simp
        · obtain ⟨c, hc, rfl⟩ := spells_one.mp hu
          obtain ⟨hlength, hall⟩ := ih.mp hv
          refine ⟨?_, List.forall_mem_cons.mpr ⟨hc, hall⟩⟩
          rw [List.singleton_append, List.length_cons]
          omega
      · rintro ⟨hlength, hall⟩
        cases w with
        | nil => exact .inl rfl
        | cons c rest =>
            obtain ⟨hc, hrest⟩ := List.forall_mem_cons.mp hall
            rw [List.length_cons] at hlength
            exact .inr ⟨[c], rest, rfl, spells_one.mpr ⟨c, hc, rfl⟩, ih.mpr ⟨by omega, hrest⟩⟩

end repeats

end Pattern

end Lib
