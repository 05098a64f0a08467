import Mathlib.Data.List.Basic

/-! # Guarded transition systems

A system is a partial step function: `step s c = some t` when the choice `c` of the
environment is enabled in `s` and leads to `t`.  The same function replays a concrete list of
choices (`run`), so that a scenario can be evaluated, and generates the states every run can
reach (`Reaches`), so that an invariant is proved once per step and lifted to every run
(`Reaches.invariant`).  `ReachesVia` restricts a run to choices that satisfy a condition in the
state where they are made; its rule lifts conditional step lemmas.

The systems here write logs that grow at their end; `entry_of_append` says where an entry
and what follows it stand after one more entry. -/

namespace Lib

/-- An entry of a log with one more entry at its end: it is the new one and nothing follows it, or
it was there and the new one follows with the rest. -/
theorem entry_of_append {α : Type} {log pre post : List α} {a b : α}
    (h : log ++ [a] = pre ++ b :: post) :
    (pre = log ∧ b = a ∧ post = []) ∨ ∃ rest, post = rest ++ [a] ∧ log = pre ++ b :: rest := by
  rw [List.append_eq_append_iff] at h
  rcases h with ⟨mid, rfl, hmid⟩ | ⟨rest, hlog, hrest⟩
  · -- the log ends within `pre`
    cases mid with
    | nil =>
        obtain ⟨rfl, rfl⟩ := List.cons.inj hmid
        exact .inl ⟨List.append_nil log, rfl, rfl⟩
    | cons c mid => simp at hmid
  · cases rest with
    | nil =>
        obtain ⟨rfl, rfl⟩ := List.cons.inj hrest
        exact .inl ⟨by rw [hlog, List.append_nil], rfl, rfl⟩
    | cons c rest =>
        obtain ⟨rfl, rfl⟩ := List.cons.inj hrest
        exact .inr ⟨rest, rfl, hlog⟩

variable {σ ι : Type} (step : σ → ι → Option σ)

/-- Replay a list of choices. -/
def run : List ι → σ → Option σ
  | [], s => some s
  | c :: cs, s => (step s c).bind (run cs)

/-- `t` is reached from `s` by enabled choices. -/
inductive Reaches (s : σ) : σ → Prop
  | refl : Reaches s s
  | tail {t u : σ} {c : ι} : Reaches s t → step t c = some u → Reaches s u

/-- `t` is reached from `s` by enabled choices that all satisfy `ok` where they are made. -/
inductive ReachesVia (ok : σ → ι → Prop) (s : σ) : σ → Prop
  | refl : ReachesVia ok s s
  | tail {t u : σ} {c : ι} :
      ReachesVia ok s t → ok t c → step t c = some u → ReachesVia ok s u

variable {step} {ok : σ → ι → Prop}

theorem ReachesVia.reaches {s t : σ} (h : ReachesVia step ok s t) : Reaches step s t := by
  induction h with
  | refl => exact .refl
  | tail _ _ hs ih => exact .tail ih hs

theorem ReachesVia.mono {ok' : σ → ι → Prop} (hok : ∀ s c, ok s c → ok' s c) {s t : σ}
    (h : ReachesVia step ok s t) : ReachesVia step ok' s t := by
  induction h with
  | refl => exact .refl
  | tail _ ho hs ih => exact .tail ih (hok _ _ ho) hs

/-- **Invariant rule**: what holds at the start and is kept by every step holds in every
reached state.  The step premise may use that its source is reached. -/
theorem Reaches.invariant {I : σ → Prop} {s t : σ} (h : Reaches step s t) (h0 : I s)
    (hstep : ∀ t u c, Reaches step s t → I t → step t c = some u → I u) : I t := by
  induction h with
  | refl => exact h0
  | tail hr hs ih => exact hstep _ _ _ hr ih hs

/-- The invariant rule for runs whose choices satisfy `ok`. -/
theorem ReachesVia.invariant {I : σ → Prop} {s t : σ} (h : ReachesVia step ok s t) (h0 : I s)
    (hstep : ∀ t u c, Reaches step s t → ok t c → I t → step t c = some u → I u) : I t := by
  induction h with
  | refl => exact h0
  | tail hr ho hs ih => exact hstep _ _ _ hr.reaches ho ih hs

theorem Reaches.head {s t u : σ} {c : ι} (hs : step s c = some t) (h : Reaches step t u) :
    Reaches step s u := by
  induction h with
  | refl => exact .tail .refl hs
  | tail _ hs' ih => exact .tail ih hs'

theorem run_append (cs cs' : List ι) (s : σ) : run step (cs ++ cs') s = (run step cs s).bind (run step cs') := by
  induction cs generalizing s with
  | nil => rfl
  | cons c cs ih =>
      rw [List.cons_append, run, run, Option.bind_assoc]
      congr 1
      funext t
      exact ih t

/-- A replayed scenario ends in a reached state. -/
theorem reaches_of_run : ∀ {cs : List ι} {s t : σ}, run step cs s = some t → Reaches step s t
  | [], s, t, h => by
      simp only [run, Option.some.injEq] at h
      exact h ▸ .refl
  | c :: cs, s, t, h => by
      simp only [run, Option.bind_eq_some_iff] at h
      obtain ⟨u, hu, ht⟩ := h
      exact .head hu (reaches_of_run ht)

/-- A replayed scenario whose last state satisfies a test. -/
theorem exists_reaches_of_run (step : σ → ι → Option σ) (cs : List ι) (s : σ) (p : σ → Bool)
    (h : (run step cs s).any p = true) : ∃ t, Reaches step s t ∧ p t = true := by
  obtain ⟨t, ht, hp⟩ := Option.any_eq_true _ _ |>.mp h
  exact ⟨t, reaches_of_run ht, hp⟩

/-- Only the choices that satisfy `ok`. -/
def guarded (step : σ → ι → Option σ) (ok : σ → ι → Bool) (s : σ) (c : ι) : Option σ :=
  if ok s c then step s c else none

/-- A replayed scenario all of whose choices satisfy `ok`. -/
theorem exists_reachesVia_of_run (step : σ → ι → Option σ) (ok : σ → ι → Bool) (cs : List ι) (s : σ)
    (p : σ → Bool) (h : (run (guarded step ok) cs s).any p = true) :
    ∃ t, ReachesVia step (fun s c => ok s c = true) s t ∧ p t = true := by
  obtain ⟨t, ht, hp⟩ := exists_reaches_of_run _ _ _ _ h
  refine ⟨t, ?_, hp⟩
  clear h hp
  induction ht with
  | refl => exact .refl
  | tail _ hs ih =>
      unfold guarded at hs
      split_ifs at hs with hok
      exact .tail ih hok hs

/-- Every choice of a scenario satisfies `ok` in the state where it is made. -/
def meets (step : σ → ι → Option σ) (ok : σ → ι → Bool) : List ι → σ → Bool
  | [], _ => true
  | c :: cs, s => ok s c && (step s c).all (meets step ok cs)

/-- The invariant rule for a scenario whose choices satisfy `quiet`. -/
theorem run_invariant {quiet : σ → ι → Bool} {I : σ → Prop}
    (hI : ∀ s t c, I s → quiet s c = true → step s c = some t → I t) :
    ∀ {cs : List ι} {s t : σ}, I s → meets step quiet cs s = true → run step cs s = some t → I t
  | [], s, t, hs, _, h => by
      obtain rfl := Option.some.inj h
      exact hs
  | c :: cs, s, t, hs, hquiet, h => by
      rw [run, Option.bind_eq_some_iff] at h
      obtain ⟨u, hu, ht⟩ := h
      rw [meets, Bool.and_eq_true, hu, Option.all_some] at hquiet
      exact run_invariant hI (hI s u c hs hquiet.1 hu) hquiet.2 ht

/-- When `ok` says of each step that satisfies `quiet` exactly whether it keeps a property, the property
survives such a scenario if and only if every choice satisfies `ok`. -/
theorem iff_meets_of_quiet {ok quiet : σ → ι → Bool} {I P : σ → Prop}
    (hI : ∀ s t c, I s → quiet s c = true → step s c = some t → I t)
    (hP : ∀ s t c, I s → quiet s c = true → step s c = some t → (P t ↔ P s ∧ ok s c = true)) :
    ∀ {cs : List ι} {s t : σ}, I s → meets step quiet cs s = true → run step cs s = some t →
      (P t ↔ P s ∧ meets step ok cs s = true)
  | [], s, t, _, _, h => by
      simp only [run, Option.some.injEq] at h
      simp [meets, h]
  | c :: cs, s, t, hs, hquiet, h => by
      simp only [run, Option.bind_eq_some_iff] at h
      obtain ⟨u, hu, ht⟩ := h
      rw [meets, Bool.and_eq_true, hu, Option.all_some] at hquiet
      have htail := iff_meets_of_quiet hI hP (hI s u c hs hquiet.1 hu) hquiet.2 ht
      rw [htail, hP s u c hs hquiet.1 hu]
      simp only [meets, hu, Option.all_some, Bool.and_eq_true, and_assoc]

theorem meets_true (cs : List ι) (s : σ) : meets step (fun _ _ => true) cs s = true := by
  induction cs generalizing s with
  | nil => rfl
  | cons c cs ih =>
      rw [meets, Bool.true_and]
      cases step s c with
      | none => rfl
      | some t => exact ih t

/-- When `ok` says of each step exactly whether it keeps a property, the property survives a scenario
if and only if every choice satisfies `ok`. -/
theorem iff_meets {ok : σ → ι → Bool} {I P : σ → Prop} (hI : ∀ s t c, I s → step s c = some t → I t)
    (hP : ∀ s t c, I s → step s c = some t → (P t ↔ P s ∧ ok s c = true)) :
    ∀ {cs : List ι} {s t : σ}, I s → run step cs s = some t →
      (P t ↔ P s ∧ meets step ok cs s = true) :=
  fun hs h => iff_meets_of_quiet (fun s t c hs _ => hI s t c hs) (fun s t c hs _ => hP s t c hs) hs
    (meets_true _ _) h

end Lib
