import JAgent.Lib.Dict

/-! # Layered topological sorting by in-degrees

The breadth-first form of Kahn's algorithm over an arbitrary type of nodes.  The graph is a
list of edges `(x, d)` (`x` waits for `d`, with multiplicity); `succ d` lists the nodes waiting
for `d`.  Each round empties the queue into one layer and lowers the in-degree of the
successors (`sweep`); a node whose in-degree reaches zero joins the next round unless it is
skipped.

`Inv` is the invariant of the rounds: in-degrees count the unfinished dependencies, and a node
has been queued exactly when it has none left.  From it, every layer only waits for earlier
layers (`layers_edge_lt`), nothing is listed twice (`layers_nodup`), and what is listed is a
node that is not skipped (`mem_layers`). -/

namespace Lib.Kahn

variable {κ : Type} [DecidableEq κ]

/-- In-degrees together with the queue of the next round. -/
structure Sweep (κ : Type) where
  inDegree : Dict κ ℤ
  queue : List κ

section algorithm
variable (succ : κ → List κ) (skip : κ → Bool)

/-- Lower the in-degree of one successor and queue it when nothing is left to wait for. -/
def relax (st : Sweep κ) (n : κ) : Sweep κ :=
  let d := st.inDegree.getD n 0 - 1
  { inDegree := st.inDegree.set n d
    queue := if d = 0 ∧ skip n = false then st.queue ++ [n] else st.queue }

/-- Process the nodes of one round; returns the layer and the state of the next round. -/
def sweep : List κ → Sweep κ → List κ × Sweep κ
  | [], st => ([], st)
  | x :: xs, st =>
    if skip x then sweep xs st
    else
      let r := sweep xs ((succ x).foldl (relax skip) st)
      (x :: r.1, r.2)

/-- The layers of at most `fuel` rounds. -/
def layers : ℕ → List κ → Dict κ ℤ → List (List κ)
  | 0, _, _ => []
  | _ + 1, [], _ => []
  | fuel + 1, x :: xs, deg =>
    let r := sweep succ skip (x :: xs) ⟨deg, []⟩
    r.1 :: layers fuel r.2.queue r.2.inDegree

end algorithm

/-! ### One node -/

section relax
variable {skip : κ → Bool}

/-- Relaxing a list of successors subtracts multiplicities and queues exactly those that
reach zero, once each. -/
theorem foldl_relax (skip : κ → Bool) (ns : List κ) (st : Sweep κ)
    (hle : ∀ x ∈ ns, (ns.count x : ℤ) ≤ st.inDegree.getD x 0) :
    (∀ x, (ns.foldl (relax skip) st).inDegree.getD x 0 = st.inDegree.getD x 0 - ns.count x) ∧
    ∃ r, (ns.foldl (relax skip) st).queue = st.queue ++ r ∧ r.Nodup ∧
      ∀ x, x ∈ r ↔ x ∈ ns ∧ skip x = false ∧ st.inDegree.getD x 0 = ns.count x := by
  induction ns generalizing st with
  | nil => exact ⟨by simp, [], by simp⟩
  | cons n ns ih =>
      have hdeg : ∀ x, (relax skip st n).inDegree.getD x 0 =
          st.inDegree.getD x 0 - if n = x then 1 else 0 := by
        intro x
        unfold relax Dict.getD
        rw [Dict.get?_set]
        by_cases h : n = x <;> simp [h]
      have hcount : ∀ x, ((n :: ns).count x : ℤ) = ns.count x + if n = x then 1 else 0 := by
        intro x
        by_cases h : n = x <;> simp [h]
      have hle' : ∀ x ∈ ns, (ns.count x : ℤ) ≤ (relax skip st n).inDegree.getD x 0 := by
        intro x hx
        have h := hle x (List.mem_cons_of_mem _ hx)
        rw [hcount] at h
        rw [hdeg]
        omega
      obtain ⟨h1, r, hq, hnd, hr⟩ := ih (relax skip st n) hle'
      refine ⟨fun x => ?_, ?_⟩
      · rw [List.foldl_cons, h1, hdeg, hcount]
        ring
      · rw [List.foldl_cons]
        have hn := hle n List.mem_cons_self
        rw [hcount, if_pos rfl] at hn
        have hmem : ∀ x, x ∈ r ↔ x ∈ ns ∧ skip x = false ∧
            st.inDegree.getD x 0 = (n :: ns).count x := by
          intro x
          rw [hr, hdeg, hcount]
          constructor <;> rintro ⟨a, b, c⟩ <;> exact ⟨a, b, by omega⟩
        by_cases hpush : st.inDegree.getD n 0 - 1 = 0 ∧ skip n = false
        · -- `n` reaches zero here, so it does not occur among the remaining successors
          have hnot : n ∉ ns := by
            intro hin
            have := List.count_pos_iff.mpr hin
            omega
          have hqn : (relax skip st n).queue = st.queue ++ [n] := if_pos hpush
          refine ⟨n :: r, by rw [hq, hqn, List.append_assoc]; rfl, ?_, ?_⟩
          · exact List.nodup_cons.mpr ⟨fun hin => hnot ((hr n).mp hin).1, hnd⟩
          · intro x
            rw [List.mem_cons, List.mem_cons, hmem]
            constructor
            · rintro (rfl | h)
              · refine ⟨.inl rfl, hpush.2, ?_⟩
                rw [hcount, if_pos rfl, List.count_eq_zero_of_not_mem hnot]
                omega
              · exact ⟨.inr h.1, h.2⟩
            · rintro ⟨rfl | h, h'⟩
              · exact .inl rfl
              · exact .inr ⟨h, h'⟩
        · have hqn : (relax skip st n).queue = st.queue := if_neg hpush
          refine ⟨r, by rw [hq, hqn], hnd, fun x => ?_⟩
          rw [hmem, List.mem_cons]
          constructor
          · rintro ⟨a, b⟩
            exact ⟨.inr a, b⟩
          · rintro ⟨rfl | h, h'⟩
            · refine ⟨?_, h'⟩
              by_contra hin
              rw [hcount, if_pos rfl, List.count_eq_zero_of_not_mem hin] at h'
              exact hpush ⟨by omega, h'.1⟩
            · exact ⟨h, h'⟩

end relax

/-! ### The invariant of the rounds -/

section invariant
variable {succ : κ → List κ} {skip : κ → Bool} {nodes : List κ} {E : List (κ × κ)}

/-- Number of dependencies of `x` that are not in `done`. -/
def waiting (E : List (κ × κ)) (done : List κ) (x : κ) : ℕ :=
  E.countP (fun e => e.1 = x ∧ e.2 ∉ done)

/-- `succ` lists the edges by their target, and edges run between nodes. -/
structure Graph (succ : κ → List κ) (skip : κ → Bool) (nodes : List κ) (E : List (κ × κ)) : Prop where
  succ_eq : ∀ d, succ d = (E.filter (fun e => e.2 = d)).map Prod.fst
  src_mem : ∀ e ∈ E, e.1 ∈ nodes

/-- In-degrees count what is still awaited, and a node has been queued exactly when it awaits
nothing. -/
structure Inv (skip : κ → Bool) (nodes : List κ) (E : List (κ × κ)) (done : List κ)
    (st : Sweep κ) : Prop where
  deg : ∀ x, st.inDegree.getD x 0 = waiting E done x
  nodup : (done ++ st.queue).Nodup
  queued : ∀ x, x ∈ done ++ st.queue ↔ x ∈ nodes ∧ skip x = false ∧ waiting E done x = 0

theorem waiting_append_singleton {done : List κ} {y : κ} (hy : y ∉ done) (x : κ) :
    waiting E (done ++ [y]) x + ((E.filter (fun e => e.2 = y)).map Prod.fst).count x =
      waiting E done x := by
  unfold waiting
  rw [List.count_eq_countP, List.countP_map, List.countP_filter]
  induction E with
  | nil => rfl
  | cons e E ih =>
      simp only [List.countP_cons, Function.comp, List.mem_append, List.mem_singleton] at ih ⊢
      by_cases h1 : e.1 = x <;> by_cases h2 : e.2 = y <;> by_cases h3 : e.2 ∈ done <;>
        simp_all <;> omega

/-- Processing the first queued node keeps the invariant. -/
theorem Inv.relax {done q : List κ} {y : κ} {deg : Dict κ ℤ}
    (hG : Graph succ skip nodes E) (h : Inv skip nodes E done ⟨deg, y :: q⟩) :
    Inv skip nodes E (done ++ [y]) ((succ y).foldl (relax skip) ⟨deg, q⟩) := by
  have hy : y ∉ done := by
    intro hin
    have := h.nodup
    rw [List.nodup_append] at this
    exact this.2.2 y hin y List.mem_cons_self rfl
  have hw := fun x => waiting_append_singleton (E := E) hy x
  simp only [← hG.succ_eq] at hw
  obtain ⟨hdeg, r, hq, hnd, hr⟩ := foldl_relax skip (succ y) ⟨deg, q⟩ (by
    intro x _
    have h1 := h.deg x
    have h2 := hw x
    simp only at h1 ⊢
    omega)
  have hassoc : (done ++ [y]) ++ (q ++ r) = (done ++ y :: q) ++ r := by simp
  have hnew : ∀ x, x ∈ r ↔ x ∈ succ y ∧ skip x = false ∧ waiting E (done ++ [y]) x = 0 := by
    intro x
    rw [hr]
    have h1 := h.deg x
    have h2 := hw x
    simp only at h1 ⊢
    constructor <;> rintro ⟨a, b, c⟩ <;> exact ⟨a, b, by omega⟩
  have hold : ∀ x ∈ done ++ y :: q, x ∉ r := by
    intro x hx hxr
    have h1 := ((h.queued x).mp hx).2.2
    have h2 := hw x
    have h3 := List.count_pos_iff.mpr ((hnew x).mp hxr).1
    omega
  refine ⟨fun x => ?_, ?_, fun x => ?_⟩
  · rw [hdeg]
    have h1 := h.deg x
    have h2 := hw x
    simp only at h1 ⊢
    omega
  · rw [hq, hassoc, List.nodup_append]
    exact ⟨h.nodup, hnd, fun a ha b hb hab => hold a ha (hab ▸ hb)⟩
  · rw [hq, hassoc, List.mem_append, h.queued, hnew]
    have h2 := hw x
    constructor
    · rintro (⟨a, b, c⟩ | ⟨a, b, c⟩)
      · exact ⟨a, b, by omega⟩
      · refine ⟨?_, b, c⟩
        rw [hG.succ_eq, List.mem_map] at a
        obtain ⟨e, he, rfl⟩ := a
        exact hG.src_mem e (List.mem_of_mem_filter he)
    · rintro ⟨a, b, c⟩
      by_cases hx : x ∈ succ y
      · exact .inr ⟨hx, b, c⟩
      · rw [List.count_eq_zero_of_not_mem hx] at h2
        exact .inl ⟨a, b, by omega⟩

/-- Nodes queued before the successors are relaxed stay in front. -/
theorem foldl_relax_append (ns p q : List κ) (deg : Dict κ ℤ) :
    ns.foldl (Kahn.relax skip) ⟨deg, p ++ q⟩ =
      ⟨(ns.foldl (Kahn.relax skip) ⟨deg, q⟩).inDegree,
        p ++ (ns.foldl (Kahn.relax skip) ⟨deg, q⟩).queue⟩ := by
  induction ns generalizing deg q with
  | nil => rfl
  | cons n ns ih =>
      have h : Kahn.relax skip ⟨deg, p ++ q⟩ n =
          ⟨(Kahn.relax skip ⟨deg, q⟩ n).inDegree, p ++ (Kahn.relax skip ⟨deg, q⟩ n).queue⟩ := by
        simp only [Kahn.relax]
        split_ifs <;> simp
      rw [List.foldl_cons, h, ih]
      rfl

/-- A round lists its whole queue and keeps the invariant. -/
theorem Inv.sweep (hG : Graph succ skip nodes E) (q : List κ) :
    ∀ (q' done : List κ) (deg : Dict κ ℤ), Inv skip nodes E done ⟨deg, q ++ q'⟩ →
      (Kahn.sweep succ skip q ⟨deg, q'⟩).1 = q ∧
      Inv skip nodes E (done ++ q) (Kahn.sweep succ skip q ⟨deg, q'⟩).2 := by
  induction q with
  | nil =>
      intro q' done deg h
      simpa [Kahn.sweep] using h
  | cons y q ih =>
      intro q' done deg h
      have hskip : skip y = false := ((h.queued y).mp (by simp)).2.1
      rw [List.cons_append] at h
      have h' := Inv.relax hG h
      rw [foldl_relax_append] at h'
      obtain ⟨h1, h2⟩ := ih _ _ _ h'
      simp only [Kahn.sweep, hskip, Bool.false_eq_true, if_false]
      refine ⟨by rw [h1], ?_⟩
      rw [List.append_cons]
      exact h2

/-- **Every layer is the queue of an invariant state** in which exactly the earlier layers are
done. -/
theorem Inv.layers (hG : Graph succ skip nodes E) (fuel : ℕ) :
    ∀ (q done : List κ) (deg : Dict κ ℤ), Inv skip nodes E done ⟨deg, q⟩ →
      ∀ L₁ l L₂, Kahn.layers succ skip fuel q deg = L₁ ++ l :: L₂ →
        ∃ deg', Inv skip nodes E (done ++ L₁.flatten) ⟨deg', l⟩ := by
  induction fuel with
  | zero =>
      intro q done deg _ L₁ l L₂ hL
      simp [Kahn.layers] at hL
  | succ fuel ih =>
      intro q done deg h L₁ l L₂ hL
      cases q with
      | nil => simp [Kahn.layers] at hL
      | cons x xs =>
          obtain ⟨h1, h2⟩ := Inv.sweep hG (x :: xs) [] done deg (by simpa using h)
          simp only [Kahn.layers, h1] at hL
          cases L₁ with
          | nil =>
              simp only [List.nil_append, List.cons.injEq] at hL
              refine ⟨deg, ?_⟩
              rw [← hL.1]
              simpa using h
          | cons l' L₁ =>
              simp only [List.cons_append, List.cons.injEq] at hL
              obtain ⟨deg', h3⟩ := ih _ _ _ h2 L₁ l L₂ hL.2
              refine ⟨deg', ?_⟩
              rw [List.flatten_cons, ← List.append_assoc, ← hL.1]
              exact h3

theorem mem_of_waiting_eq_zero {done : List κ} {x d : κ} (h : waiting E done x = 0)
    (he : (x, d) ∈ E) : d ∈ done := by
  unfold waiting at h
  rw [List.countP_eq_zero] at h
  have := h _ he
  simpa using this

/-- The start of the algorithm: in-degrees count all edges and the queue holds the nodes
without any. -/
theorem Inv.start {deg : Dict κ ℤ} (hn : nodes.Nodup)
    (hdeg : ∀ x, deg.getD x 0 = (E.map Prod.fst).count x) :
    Inv skip nodes E []
      ⟨deg, nodes.filter (fun x => deg.getD x 0 = 0 ∧ skip x = false)⟩ := by
  have hw : ∀ x, waiting E [] x = (E.map Prod.fst).count x := by
    intro x
    rw [waiting, List.count_eq_countP, List.countP_map]
    apply List.countP_congr
    intro e _
    simp
  refine ⟨fun x => by rw [hdeg, hw], by simpa using hn.filter _, fun x => ?_⟩
  have h1 := hw x
  have h2 := hdeg x
  simp only [List.nil_append, List.mem_filter, decide_eq_true_eq]
  constructor
  · rintro ⟨a, b, c⟩
    exact ⟨a, c, by omega⟩
  · rintro ⟨a, b, c⟩
    exact ⟨a, by omega, b⟩

section layers
variable {done q : List κ} {deg : Dict κ ℤ} {fuel : ℕ} {L₁ L₂ : List (List κ)} {l : List κ}

/-- **A layer waits only for earlier layers.** -/
theorem layers_edge_lt (hG : Graph succ skip nodes E) (h : Inv skip nodes E [] ⟨deg, q⟩)
    (hL : Kahn.layers succ skip fuel q deg = L₁ ++ l :: L₂) {x d : κ} (hx : x ∈ l)
    (he : (x, d) ∈ E) : d ∈ L₁.flatten := by
  obtain ⟨deg', h'⟩ := Inv.layers hG fuel q [] deg h L₁ l L₂ hL
  have hq := (h'.queued x).mp (by simp [hx])
  simpa using mem_of_waiting_eq_zero hq.2.2 he

/-- **Nothing is listed twice.** -/
theorem layers_nodup (hG : Graph succ skip nodes E) (h : Inv skip nodes E [] ⟨deg, q⟩)
    (hL : Kahn.layers succ skip fuel q deg = L₁ ++ l :: L₂) : (L₁.flatten ++ l).Nodup := by
  obtain ⟨deg', h'⟩ := Inv.layers hG fuel q [] deg h L₁ l L₂ hL
  simpa using h'.nodup

/-- **What is listed is a node that is not skipped.** -/
theorem mem_layers (hG : Graph succ skip nodes E) (h : Inv skip nodes E [] ⟨deg, q⟩)
    (hL : l ∈ Kahn.layers succ skip fuel q deg) {x : κ} (hx : x ∈ l) :
    x ∈ nodes ∧ skip x = false := by
  obtain ⟨L₁, L₂, hs⟩ := List.append_of_mem hL
  obtain ⟨deg', h'⟩ := Inv.layers hG fuel q [] deg h L₁ l L₂ hs
  have hq := (h'.queued x).mp (by simp [hx])
  exact ⟨hq.1, hq.2.1⟩

end layers
end invariant
end Lib.Kahn
