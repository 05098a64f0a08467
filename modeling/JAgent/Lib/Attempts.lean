import Mathlib.Data.List.Basic

/-! # A bounded number of attempts

A loop makes at most a given number of attempts.  Its body goes on to the next attempt or leaves the loop
with a result.

`Tries` says what the body does: while an invariant holds, some attempts go on and keep it, and each of the
others leaves with a result of its own.  Such a loop is left at the first attempt that does not go on, with
the result of that attempt (`Tries.leaves`); only a loop all of whose attempts go on uses its budget up. -/

namespace Lib

variable {σ β : Type}

/-- The loop over `m` attempts, the first of which has the number `a`. -/
def attempts (body : ℕ → σ → Except β σ) : ℕ → ℕ → σ → Except β σ
  | _, 0, s => .ok s
  | a, m + 1, s => match body a s with
    | .error b => .error b
    | .ok s' => attempts body (a + 1) m s'

/-- The first attempt from `a` on that does not go on. -/
structure FirstStop (goes : ℕ → Bool) (a n : ℕ) : Prop where
  le : a ≤ n
  before : ∀ k, a ≤ k → k < n → goes k = true
  stops : goes n = false

theorem firstStop_or (goes : ℕ → Bool) (a m : ℕ) :
    (∃ n, FirstStop goes a n ∧ n < a + m) ∨ ∀ k, a ≤ k → k < a + m → goes k = true := by
  induction m with
  | zero =>
      refine .inr fun k hle hlt => ?_
      omega
  | succ m ih =>
      obtain ⟨n, hn, hlt⟩ | hall := ih
      · exact .inl ⟨n, hn, by omega⟩
      · cases hgo : goes (a + m) with
        | false => exact .inl ⟨a + m, ⟨Nat.le_add_right a m, hall, hgo⟩, by omega⟩
        | true =>
            refine .inr fun k hle hlt => ?_
            obtain hk | rfl := Nat.lt_or_eq_of_le (Nat.le_of_lt_succ hlt)
            · exact hall k hle hk
            · exact hgo

/-- What the body does at each attempt. -/
structure Tries (body : ℕ → σ → Except β σ) (inv : ℕ → σ → Prop) (goes : ℕ → Bool) (out : ℕ → β) : Prop where
  on : ∀ n s, inv n s → goes n = true → ∃ s', body n s = .ok s' ∧ inv (n + 1) s'
  off : ∀ n s, inv n s → goes n = false → body n s = .error (out n)

variable {body : ℕ → σ → Except β σ} {inv : ℕ → σ → Prop} {goes : ℕ → Bool} {out : ℕ → β}

/-- **The loop is left** at the first attempt that does not go on. -/
theorem Tries.leaves (h : Tries body inv goes out) {a m n : ℕ} {s : σ} (hs : inv a s)
    (hn : FirstStop goes a n) (hlt : n < a + m) : attempts body a m s = .error (out n) := by
  induction m generalizing a s with
  | zero =>
      have hle := hn.le
      omega
  | succ m ih =>
      rw [attempts]
      obtain rfl | hne := Nat.eq_or_lt_of_le hn.le
      · rw [h.off a s hs hn.stops]
      · obtain ⟨s', hbody, hs'⟩ := h.on a s hs (hn.before a (Nat.le_refl a) hne)
        rw [hbody]
        refine ih hs' ⟨hne, fun k hle hk => ?_, hn.stops⟩ (by omega)
        exact hn.before k (by omega) hk

end Lib
