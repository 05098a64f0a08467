import Mathlib.Data.List.Basic

/-! # Two machines in lockstep

A machine answers each input and moves on: `f s x` is the answer to `x` in `s` and the next
state.  `outputs` and `after` are the answers and the last state of a whole run.

The first machine carries more state than the second one; `view` says what of it the second
one has.  Both are fed the same inputs, and after every prefix their answers and their views
are compared, the views up to a relation `R` that may be coarser than equality.
`lockstep_iff` reduces the comparison of the runs to a condition on single steps: the runs
agree after every prefix exactly when each input meets the condition in the state of the first
machine where it arrives (`Along`). -/

namespace Lib

section machine
variable {σ ι ω : Type}

/-- The answers of a run. -/
def outputs (f : σ → ι → ω × σ) : σ → List ι → List ω
  | _, [] => []
  | s, x :: xs => (f s x).1 :: outputs f (f s x).2 xs

/-- The last state of a run. -/
def after (f : σ → ι → ω × σ) : σ → List ι → σ
  | s, [] => s
  | s, x :: xs => after f (f s x).2 xs

/-- Every input satisfies `ok` in the state where it arrives. -/
def Along (f : σ → ι → ω × σ) (ok : σ → ι → Prop) : σ → List ι → Prop
  | _, [] => True
  | s, x :: xs => ok s x ∧ Along f ok (f s x).2 xs

instance (f : σ → ι → ω × σ) (ok : σ → ι → Prop) [∀ s x, Decidable (ok s x)] :
    ∀ (s : σ) (xs : List ι), Decidable (Along f ok s xs)
  | _, [] => inferInstanceAs (Decidable True)
  | s, x :: xs =>
      have : Decidable (Along f ok (f s x).2 xs) := instDecidableAlong f ok (f s x).2 xs
      inferInstanceAs (Decidable (_ ∧ _))

end machine

section lockstep
variable {σ τ ι ω : Type} {f : σ → ι → ω × σ} {g : τ → ι → ω × τ} {view : σ → τ}
  {R : τ → τ → Prop} {I : σ → Prop} {ok : σ → ι → Prop}

/-- The two runs on `xs` give the same answers and end in related views. -/
def Agree (f : σ → ι → ω × σ) (g : τ → ι → ω × τ) (view : σ → τ) (R : τ → τ → Prop) (s : σ)
    (t : τ) (xs : List ι) : Prop :=
  outputs f s xs = outputs g t xs ∧ R (view (after f s xs)) (after g t xs)

/-- A run of one or more inputs agrees when its first step does and the rest agrees. -/
theorem agree_cons_iff {s : σ} {t : τ} {x : ι} {xs : List ι} :
    Agree f g view R s t (x :: xs) ↔
      (f s x).1 = (g t x).1 ∧ Agree f g view R (f s x).2 (g t x).2 xs := by
  unfold Agree
  rw [outputs, outputs, after, after, List.cons.injEq]
  exact and_assoc

/-- **Lockstep rule.**  Let `ok` say of one step from equal views that it gives equal answers
and related views, and let such a step keep the views equal.  Then the runs agree after every
prefix exactly when every input meets `ok`. -/
theorem lockstep_iff (hR : ∀ t, R t t) (hI : ∀ s x, I s → I (f s x).2)
    (hok : ∀ s x, I s →
      ((f s x).1 = (g (view s) x).1 ∧ R (view (f s x).2) (g (view s) x).2 ↔ ok s x))
    (hstep : ∀ s x, I s → ok s x → view (f s x).2 = (g (view s) x).2) :
    ∀ (xs : List ι) {s : σ}, I s →
      ((∀ n, Agree f g view R s (view s) (xs.take n)) ↔ Along f ok s xs)
  | [], s, _ => by
      refine ⟨fun _ => trivial, fun _ n => ?_⟩
      rw [List.take_nil]
      exact ⟨rfl, hR _⟩
  | x :: xs, s, hs => by
      have hrest := lockstep_iff hR hI hok hstep xs (hI s x hs)
      constructor
      · intro h
        -- the prefix of length one decides the first step
        have hone : Agree f g view R s (view s) [x] := by simpa using h 1
        obtain ⟨hout, hview⟩ := agree_cons_iff.mp hone
        have hx : ok s x := (hok s x hs).mp ⟨hout, hview.2⟩
        refine ⟨hx, hrest.mp fun n => ?_⟩
        have hn := agree_cons_iff.mp (h (n + 1))
        rw [hstep s x hs hx]
        exact hn.2
      · rintro ⟨hx, hxs⟩ n
        cases n with
        | zero => exact ⟨rfl, hR _⟩
        | succ n =>
            rw [List.take_succ_cons, agree_cons_iff, ← hstep s x hs hx]
            exact ⟨((hok s x hs).mpr hx).1, hrest.mpr hxs n⟩

end lockstep
end Lib
