import Mathlib.Data.List.Basic

/-! # A dialogue with an oracle

A loop puts a bounded number of questions to an oracle.  An answer is taken, which ends the dialogue, or it
is refused with a complaint that the next question is made from; what is written down about a refused answer
changes the world.

`Dialogue.hold` is the loop.  Its exchanges are at most as many as it may make (`hold_length`), each question
answers the complaint before it (`hold_follows`), an answer is taken only as the last one and only then the
dialogue has a result (`hold_ends`), and what is written down is what the refused answers ask for, in their
order (`hold_notes`). -/

namespace Lib

/-- What is made of an answer. -/
inductive Verdict (ε β : Type) where
  | taken (result : β)
  | refused (complaint : ε)

/-- A question and its answer. -/
structure Exchange (Q A : Type) where
  question : Q
  answer : A

/-- How questions are made, what is made of the answers, and what is written down about the refused answer
of a number. -/
structure Dialogue (Q A ε β W : Type) where
  question : ε → Q
  judge : A → Verdict ε β
  note : ℕ → A → W → W

namespace Dialogue
variable {Q A ε β W : Type} (g : Dialogue Q A ε β W) (oracle : Q → W → A × W)

/-- The dialogue with at most this many questions, the first of which has the number `a`. -/
def hold : ℕ → ℕ → ε → W → Option β × List (Exchange Q A) × W
  | _, 0, _, w => (none, [], w)
  | a, n + 1, complaint, w =>
      let asked := oracle (g.question complaint) w
      match g.judge asked.1 with
      | .taken result => (some result, [⟨g.question complaint, asked.1⟩], asked.2)
      | .refused next =>
          let rest := hold (a + 1) n next (g.note a asked.1 asked.2)
          (rest.1, ⟨g.question complaint, asked.1⟩ :: rest.2.1, rest.2.2)

/-- The answer is refused. -/
def Refuses (answer : A) : Prop := ∃ complaint, g.judge answer = .refused complaint

/-- The questions follow the complaints: the first one is made from `complaint`, and each of the others from
the complaint about the answer before it. -/
def Follows : ε → List (Exchange Q A) → Prop
  | _, [] => True
  | complaint, x :: xs => x.question = g.question complaint ∧
      (xs ≠ [] → ∃ next, g.judge x.answer = .refused next ∧ Follows next xs)

variable {g oracle}

/-- **The number of questions is bounded.** -/
theorem hold_length (a n : ℕ) (complaint : ε) (w : W) : (g.hold oracle a n complaint w).2.1.length ≤ n := by
  induction n generalizing a complaint w with
  | zero => exact Nat.le_refl 0
  | succ n ih =>
      rw [hold]
      cases hjudge : g.judge (oracle (g.question complaint) w).1 with
      | taken result => exact Nat.succ_le_succ (Nat.zero_le n)
      | refused next =>
          have hrest := ih (a + 1) next (g.note a (oracle (g.question complaint) w).1
            (oracle (g.question complaint) w).2)
          exact Nat.succ_le_succ hrest

/-- **Each question is made from the complaint before it.** -/
theorem hold_follows (a n : ℕ) (complaint : ε) (w : W) :
    g.Follows complaint (g.hold oracle a n complaint w).2.1 := by
  induction n generalizing a complaint w with
  | zero => exact trivial
  | succ n ih =>
      rw [hold]
      cases hjudge : g.judge (oracle (g.question complaint) w).1 with
      | taken result => exact ⟨rfl, fun hne => absurd rfl hne⟩
      | refused next => exact ⟨rfl, fun _ => ⟨next, hjudge, ih (a + 1) next _⟩⟩

theorem Follows.head {complaint : ε} {xs : List (Exchange Q A)} (h : g.Follows complaint xs)
    {x : Exchange Q A} (hx : xs[0]? = some x) : x.question = g.question complaint := by
  cases xs with
  | nil => cases hx
  | cons y ys =>
      rw [List.getElem?_cons_zero, Option.some.injEq] at hx
      rw [← hx]
      exact h.1

/-- Between two exchanges stands a complaint, about the first and in the second. -/
theorem Follows.next {complaint : ε} {xs : List (Exchange Q A)} (h : g.Follows complaint xs) {i : ℕ}
    {x y : Exchange Q A} (hx : xs[i]? = some x) (hy : xs[i + 1]? = some y) :
    ∃ next, g.judge x.answer = .refused next ∧ y.question = g.question next := by
  induction xs generalizing complaint i with
  | nil => cases hx
  | cons z xs ih =>
      rw [List.getElem?_cons_succ] at hy
      have hne : xs ≠ [] := by
        rintro rfl
        cases hy
      obtain ⟨next, hjudge, hrest⟩ := h.2 hne
      cases i with
      | zero =>
          rw [List.getElem?_cons_zero, Option.some.injEq] at hx
          rw [← hx]
          exact ⟨next, hjudge, hrest.head hy⟩
      | succ i =>
          rw [List.getElem?_cons_succ] at hx
          exact ih hrest hx hy

/-- How the exchanges of a dialogue with this result end. -/
inductive Ends (g : Dialogue Q A ε β W) (n : ℕ) : Option β → List (Exchange Q A) → Prop
  | taken {front : List (Exchange Q A)} {last : Exchange Q A} {result : β}
      (refused : ∀ x ∈ front, g.Refuses x.answer) (judged : g.judge last.answer = .taken result) :
      Ends g n (some result) (front ++ [last])
  | exhausted {xs : List (Exchange Q A)} (refused : ∀ x ∈ xs, g.Refuses x.answer) (length : xs.length = n) :
      Ends g n none xs

/-- **A dialogue ends** with the first answer that is taken, or after as many refused answers as it may ask
for. -/
theorem hold_ends (a n : ℕ) (complaint : ε) (w : W) :
    g.Ends n (g.hold oracle a n complaint w).1 (g.hold oracle a n complaint w).2.1 := by
  induction n generalizing a complaint w with
  | zero => exact .exhausted (fun x hx => absurd hx List.not_mem_nil) rfl
  | succ n ih =>
      rw [hold]
      cases hjudge : g.judge (oracle (g.question complaint) w).1 with
      | taken result =>
          have hends : g.Ends (n + 1) (some result)
              ([] ++ [⟨g.question complaint, (oracle (g.question complaint) w).1⟩]) :=
            .taken (fun x hx => absurd hx List.not_mem_nil) hjudge
          exact hends
      | refused next =>
          have hhead : g.Refuses (oracle (g.question complaint) w).1 := ⟨next, hjudge⟩
          have hrest := ih (a + 1) next (g.note a (oracle (g.question complaint) w).1
            (oracle (g.question complaint) w).2)
          show g.Ends (n + 1) (g.hold oracle (a + 1) n next _).1 (_ :: (g.hold oracle (a + 1) n next _).2.1)
          generalize (g.hold oracle (a + 1) n next _).1 = result at hrest ⊢
          generalize (g.hold oracle (a + 1) n next _).2.1 = xs at hrest ⊢
          cases hrest with
          | @taken front last result hrefused hjudged =>
              rw [← List.cons_append]
              exact .taken (List.forall_mem_cons.mpr ⟨hhead, hrefused⟩) hjudged
          | exhausted hrefused hlength =>
              refine .exhausted (List.forall_mem_cons.mpr ⟨hhead, hrefused⟩) ?_
              rw [List.length_cons, hlength]

/-- What the answers from number `a` on ask to be written down. -/
def notes {ρ : Type} (f : ℕ → A → List ρ) : ℕ → List (Exchange Q A) → List ρ
  | _, [] => []
  | a, x :: xs => f a x.answer ++ notes f (a + 1) xs

/-- **What is written down**: a log that the oracle leaves alone grows by what each refused answer asks for,
in order. -/
theorem hold_notes {ρ : Type} {log : W → List ρ} {f : ℕ → A → List ρ}
    (horacle : ∀ q w, log (oracle q w).2 = log w) (hnote : ∀ a x w, log (g.note a x w) = log w ++ f a x)
    (htaken : ∀ a x result, g.judge x = .taken result → f a x = []) (a n : ℕ) (complaint : ε) (w : W) :
    log (g.hold oracle a n complaint w).2.2 = log w ++ notes f a (g.hold oracle a n complaint w).2.1 := by
  induction n generalizing a complaint w with
  | zero => exact (List.append_nil _).symm
  | succ n ih =>
      rw [hold]
      cases hjudge : g.judge (oracle (g.question complaint) w).1 with
      | taken result =>
          show log (oracle (g.question complaint) w).2 = log w ++ (f a _ ++ [])
          rw [horacle, htaken a _ result hjudge, List.nil_append, List.append_nil]
      | refused next =>
          show log (g.hold oracle (a + 1) n next _).2.2 =
            log w ++ (f a _ ++ notes f (a + 1) (g.hold oracle (a + 1) n next _).2.1)
          rw [ih, hnote, horacle, List.append_assoc]

end Dialogue

end Lib
