import Mathlib.Data.List.Basic

/-! # A first-in first-out queue of owned requests

Clients put requests into a queue that one server works off from the front.  A client that gives
up does not take its request back: the request loses its owner and is served all the same.  What
a client has in the queue is `owned`.

Some requests are *exclusive* (`w`): only the client that holds a lock issues them.  The holder
cannot be sure that no exclusive request of a predecessor is left, but it can be sure that all of
them stand in front of its own (`Trailing`); once its own request has been served none is left
(`Trailing.quiet`), and from then on every exclusive request is the holder's (`Quiet`).

What the server makes of a queue is described by the states a request may lead to (`turn`) and by
what a request needs (`need`): `Ensures` says that no request is served in a state it cannot use,
and that a condition holds once the queue has been worked off.

A receiver that keeps what it takes from a queue may need some elements before others; `Ordered` says
that it gets them so. -/

namespace Lib

/-- A request and the client that waits for it. -/
structure Ticket (ω : Type) where
  owner : Option ℕ
  op : ω
deriving DecidableEq

namespace Ticket
variable {ω : Type}

/-- The client gives up. -/
def disown (i : ℕ) (e : Ticket ω) : Ticket ω := if e.owner = some i then ⟨none, e.op⟩ else e

@[simp] theorem op_disown (i : ℕ) (e : Ticket ω) : (e.disown i).op = e.op := by
  unfold disown
  split_ifs <;> rfl

theorem owner_disown_self (i : ℕ) (e : Ticket ω) : (e.disown i).owner ≠ some i := by
  unfold disown
  split_ifs with h
  · simp
  · exact h

theorem owner_disown_eq_iff {i j : ℕ} (h : j ≠ i) (e : Ticket ω) :
    (e.disown i).owner = some j ↔ e.owner = some j := by
  unfold disown
  split_ifs with he
  · rw [he]
    simp [Ne.symm h]
  · rfl

end Ticket

variable {ω : Type}

/-- What a client has in the queue. -/
def owned (i : ℕ) (q : List (Ticket ω)) : List ω :=
  q.filterMap fun e => if e.owner = some i then some e.op else none

/-- The queue after a client has given up. -/
def disown (i : ℕ) (q : List (Ticket ω)) : List (Ticket ω) := q.map (Ticket.disown i)

@[simp] theorem owned_nil (i : ℕ) : owned i ([] : List (Ticket ω)) = [] := rfl

theorem owned_cons (i : ℕ) (e : Ticket ω) (q : List (Ticket ω)) :
    owned i (e :: q) = if e.owner = some i then e.op :: owned i q else owned i q := by
  unfold owned
  rw [List.filterMap_cons]
  split_ifs <;> rfl

@[simp] theorem owned_append (i : ℕ) (q q' : List (Ticket ω)) :
    owned i (q ++ q') = owned i q ++ owned i q' := by
  simp [owned]

theorem mem_owned {i : ℕ} {o : ω} {q : List (Ticket ω)} : o ∈ owned i q ↔ ⟨some i, o⟩ ∈ q := by
  unfold owned
  rw [List.mem_filterMap]
  constructor
  · rintro ⟨e, he, h⟩
    split_ifs at h with ho
    obtain ⟨owner, op⟩ := e
    simp only [Option.some.injEq] at h ho
    rw [← h, ← ho]
    exact he
  · intro h
    exact ⟨_, h, by simp⟩

@[simp] theorem owned_disown_self (i : ℕ) (q : List (Ticket ω)) : owned i (disown i q) = [] := by
  unfold owned disown
  rw [List.filterMap_map, List.filterMap_eq_nil_iff]
  intro e _
  simp only [Function.comp_apply, if_neg (e.owner_disown_self i)]

theorem owned_disown {i j : ℕ} (h : j ≠ i) (q : List (Ticket ω)) :
    owned j (disown i q) = owned j q := by
  unfold owned disown
  rw [List.filterMap_map]
  congr 1
  funext e
  simp only [Function.comp_apply, Ticket.owner_disown_eq_iff h, Ticket.op_disown]

theorem mem_disown {i : ℕ} {e : Ticket ω} {q : List (Ticket ω)} (h : e ∈ disown i q) :
    ∃ e' ∈ q, e'.op = e.op := by
  obtain ⟨e', he', rfl⟩ := List.mem_map.mp h
  exact ⟨e', he', by simp⟩

/-! ### Exclusive requests -/

variable (w : ω → Bool)

/-- Exclusive requests of others stand in front of a request of `i`. -/
def Trailing (i : ℕ) : List (Ticket ω) → Prop
  | [] => True
  | e :: q => (w e.op = true → e.owner ≠ some i → owned i q ≠ []) ∧ Trailing i q

/-- Every exclusive request is of `i`. -/
def Quiet (i : ℕ) (q : List (Ticket ω)) : Prop := ∀ e ∈ q, w e.op = true → e.owner = some i

variable {w}

/-- A client that queues behind everything else trails whatever is there. -/
theorem trailing_append_own (i : ℕ) (o : ω) : ∀ q : List (Ticket ω),
    Trailing w i (q ++ [⟨some i, o⟩])
  | [] => ⟨fun _ h => absurd rfl h, trivial⟩
  | _ :: q => ⟨fun _ _ => by simp [owned_cons], trailing_append_own i o q⟩

theorem Trailing.append_other {i : ℕ} {e : Ticket ω} (hw : w e.op = false) (he : e.owner ≠ some i) :
    ∀ {q : List (Ticket ω)}, Trailing w i q → Trailing w i (q ++ [e])
  | [], _ => ⟨fun h => absurd h (by simp [hw]), trivial⟩
  | _ :: q, h => by
      refine ⟨fun h1 h2 => ?_, Trailing.append_other hw he h.2⟩
      change owned i (q ++ [e]) ≠ []
      rw [owned_append]
      exact List.append_ne_nil_of_left_ne_nil (h.1 h1 h2) _

theorem Trailing.disown {i j : ℕ} (hij : i ≠ j) : ∀ {q : List (Ticket ω)},
    Trailing w i q → Trailing w i (disown j q)
  | [], _ => trivial
  | e :: q, h => by
      refine ⟨fun h1 h2 => ?_, Trailing.disown hij h.2⟩
      rw [show List.map (Ticket.disown j) q = Lib.disown j q from rfl, owned_disown hij]
      apply h.1
      · simpa using h1
      · rwa [Ne, Ticket.owner_disown_eq_iff hij] at h2

/-- When nothing of the holder is left in the queue, nothing exclusive is. -/
theorem Trailing.none_left {i : ℕ} : ∀ {q : List (Ticket ω)},
    Trailing w i q → owned i q = [] → ∀ e ∈ q, w e.op = false
  | [], _, _, e, he => absurd he List.not_mem_nil
  | e :: q, h, ho, e', he => by
      rw [owned_cons] at ho
      split_ifs at ho with hi
      rcases List.mem_cons.mp he with rfl | hm
      · by_contra hw
        exact h.1 (by simpa using hw) hi ho
      · exact h.2.none_left ho e' hm

theorem Trailing.quiet {i : ℕ} {q : List (Ticket ω)} (h : Trailing w i q) (ho : owned i q = []) :
    Quiet w i q := by
  intro e he hw
  rw [h.none_left ho e he] at hw
  exact absurd hw (by simp)

theorem Quiet.append_other {i : ℕ} {q : List (Ticket ω)} {e : Ticket ω} (h : Quiet w i q)
    (hw : w e.op = false) : Quiet w i (q ++ [e]) := by
  intro e' he' hw'
  rcases List.mem_append.mp he' with he | he
  · exact h e' he hw'
  · rw [List.mem_singleton.mp he, hw] at hw'
    exact absurd hw' (by simp)

theorem Quiet.disown {i j : ℕ} (hij : i ≠ j) {q : List (Ticket ω)} (h : Quiet w i q) :
    Quiet w i (disown j q) := by
  intro e he hw
  obtain ⟨e', he', rfl⟩ := List.mem_map.mp he
  rw [Ticket.owner_disown_eq_iff hij]
  exact h e' he' (by simpa using hw)

theorem Quiet.tail {i : ℕ} {e : Ticket ω} {q : List (Ticket ω)} (h : Quiet w i (e :: q)) :
    Quiet w i q := fun e' he' => h e' (List.mem_cons_of_mem _ he')

/-! ### Working off a queue -/

section Serving
variable {τ : Type} {need : ω → τ → Prop} {turn : ω → τ → List τ} {P Q : τ → Prop}

/-- However the server works the queue off from a state, every request finds what it needs, and `P`
holds in the end. -/
def Ensures (need : ω → τ → Prop) (turn : ω → τ → List τ) (P : τ → Prop) : List ω → τ → Prop
  | [], t => P t
  | o :: q, t => need o t ∧ ∀ t' ∈ turn o t, Ensures need turn P q t'

theorem Ensures.mono (hPQ : ∀ t, P t → Q t) : ∀ {q : List ω} {t : τ},
    Ensures need turn P q t → Ensures need turn Q q t
  | [], _, h => hPQ _ h
  | _ :: _, _, h => ⟨h.1, fun t' ht' => Ensures.mono hPQ (h.2 t' ht')⟩

theorem ensures_append : ∀ {q q' : List ω} {t : τ},
    Ensures need turn P (q ++ q') t ↔ Ensures need turn (Ensures need turn P q') q t
  | [], _, _ => Iff.rfl
  | _ :: _, _, _ => and_congr_right fun _ => forall₂_congr fun _ _ => ensures_append

/-- Requests that keep `P` and find in it what they need. -/
theorem ensures_of_forall {q : List ω} (h : ∀ o ∈ q, ∀ t, P t → need o t ∧ ∀ t' ∈ turn o t, P t') :
    ∀ {t : τ}, P t → Ensures need turn P q t := by
  induction q with
  | nil => exact fun ht => ht
  | cons o q ih =>
      intro t ht
      obtain ⟨hneed, hturn⟩ := h o List.mem_cons_self t ht
      refine ⟨hneed, fun t' ht' => ih (fun o' ho' => ?_) (hturn t' ht')⟩
      exact h o' (List.mem_cons_of_mem _ ho')

end Serving

/-! ### A queue in order -/

section Ordered
variable {α : Type} {before : α → α → Prop} {kept p q : List α} {e : α}

/-- Whatever has to come before an element of the queue is kept already or stands in front of it. -/
def Ordered (before : α → α → Prop) : List α → List α → Prop
  | _, [] => True
  | kept, e :: q => (∀ x, before x e → x ∈ kept) ∧ Ordered before (kept ++ [e]) q

/-- Only what has to come before some element needs to be kept. -/
theorem Ordered.mono : ∀ {q kept kept' : List α}, (∀ x e, before x e → x ∈ kept → x ∈ kept') →
    Ordered before kept q → Ordered before kept' q
  | [], _, _, _, _ => trivial
  | e :: _, _, _, hsub, h => by
      refine ⟨fun x hx => hsub x e hx (h.1 x hx), Ordered.mono ?_ h.2⟩
      intro x y hxy hx
      rcases List.mem_append.mp hx with hx | hx
      · exact List.mem_append_left _ (hsub x y hxy hx)
      · exact List.mem_append_right _ hx

theorem ordered_append : ∀ {p kept : List α},
    Ordered before kept (p ++ q) ↔ Ordered before kept p ∧ Ordered before (kept ++ p) q
  | [], kept => by simp [Ordered]
  | e :: p, kept => by
      have ih : Ordered before (kept ++ [e]) (p ++ q) ↔
          Ordered before (kept ++ [e]) p ∧ Ordered before (kept ++ [e] ++ p) q := ordered_append
      simp only [List.cons_append, Ordered, ih, List.append_assoc, List.nil_append, and_assoc]

theorem Ordered.of_append (h : Ordered before kept (p ++ q)) : Ordered before kept p :=
  (ordered_append.mp h).1

/-- An element may be put in where everything that has to come before it has come. -/
theorem Ordered.insert (h : Ordered before kept (p ++ q)) (he : ∀ x, before x e → x ∈ kept ++ p) :
    Ordered before kept (p ++ e :: q) := by
  obtain ⟨hp, hq⟩ := ordered_append.mp h
  refine ordered_append.mpr ⟨hp, he, hq.mono ?_⟩
  intro x y _ hx
  exact List.mem_append_left _ hx

theorem Ordered.imp {before' : α → α → Prop} : ∀ {q kept : List α},
    (∀ e ∈ q, ∀ x, before' x e → before x e) → Ordered before kept q → Ordered before' kept q
  | [], _, _, _ => trivial
  | e :: _, _, himp, h => by
      refine ⟨fun x hx => h.1 x (himp e List.mem_cons_self x hx), Ordered.imp ?_ h.2⟩
      intro e' he'
      exact himp e' (List.mem_cons_of_mem _ he')

/-- A queue that holds whatever has to come before its elements, in this order. -/
theorem ordered_of_pairwise : ∀ {q kept : List α}, q.Pairwise (fun a b => ¬ before b a) →
    (∀ e ∈ q, ¬ before e e) → (∀ e ∈ q, ∀ x, before x e → x ∈ kept ∨ x ∈ q) → Ordered before kept q
  | [], _, _, _, _ => trivial
  | e :: q, kept, hpair, hirr, hall => by
      obtain ⟨hhead, htail⟩ := List.pairwise_cons.mp hpair
      refine ⟨?_, ordered_of_pairwise htail (fun x hx => hirr x (List.mem_cons_of_mem _ hx)) ?_⟩
      · intro x hx
        rcases hall e List.mem_cons_self x hx with hkept | hq
        · exact hkept
        · rcases List.mem_cons.mp hq with rfl | hq
          · exact absurd hx (hirr x List.mem_cons_self)
          · exact absurd hx (hhead x hq)
      · intro y hy x hx
        rcases hall y (List.mem_cons_of_mem _ hy) x hx with hkept | hq
        · exact .inl (List.mem_append_left _ hkept)
        · rcases List.mem_cons.mp hq with rfl | hq
          · exact .inl (List.mem_append_right _ List.mem_cons_self)
          · exact .inr hq

end Ordered

end Lib
