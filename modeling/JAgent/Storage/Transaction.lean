import JAgent.Lib.Queue
import JAgent.Lib.System

/-! # Transactions on the shared connection

`_txn_immediate` with `_begin_immediate_with_recovery`, for an arbitrary body and with a
cancellation at every await.  The connection puts each statement into the queue of its worker
thread and then awaits it, and a cancelled caller leaves its statement in the queue.  Callers hold
`_db_write_lock`, so that one context is open at a time; reads of other callers do not take the
lock and may stand anywhere in the queue.

The body is a program over states `β`: in each state it ends, raises or executes a statement, and
what it does after an await depends on whether that gave a result, an error or a cancellation; a
body may catch either and go on.  The tables `σ` and the results `ρ` of statements are arbitrary.
A statement of the body that fails has no effect and leaves the transaction open. -/

namespace JAgent
open Lib

/-! ### The connection -/

/-- What the worker executes.  BEGIN and the statements of a body are tagged with the context that
issued them. -/
inductive ConnOp (σ ρ : Type) where
  | begin (i : ℕ)
  | commit
  | rollback
  | stmt (i : ℕ) (f : σ → σ × ρ)
  /-- A read of another caller. -/
  | read

/-- What the worker answers. -/
inductive Reply (ρ : Type) where
  | done
  | value (r : ρ)
  /-- "cannot start a transaction within a transaction" -/
  | nested
  | failed

/-- The connection: the committed tables, and the open transaction with the context whose BEGIN
opened it (0 when none of the contexts did). -/
structure Conn (σ : Type) where
  committed : σ
  working : Option (ℕ × σ) := none

namespace Conn
variable {σ ρ : Type} (c : Conn σ)

/-- What a statement sees. -/
def view : σ := (c.working.map Prod.snd).getD c.committed

/-- The context of the open transaction. -/
def owner : Option ℕ := c.working.map Prod.fst

/-- The worker executes a statement, or fails to.  ROLLBACK does not fail, and does nothing without
a transaction.  A statement without a transaction makes the driver open one. -/
def exec : ConnOp σ ρ → Bool → Conn σ × Reply ρ
  | .rollback, _ => ({ c with working := none }, .done)
  | .read, _ => (c, .done)
  | .begin _, true | .commit, true | .stmt _ _, true => (c, .failed)
  | .begin i, false => match c.working with
      | none => ({ c with working := some (i, c.committed) }, .done)
      | some _ => (c, .nested)
  | .commit, false => ({ committed := c.view }, .done)
  | .stmt _ f, false =>
      ({ c with working := some (c.owner.getD 0, (f c.view).1) }, .value (f c.view).2)

/-- The worker executes what is queued, with these failures. -/
def workOff (c : Conn σ) : List (ConnOp σ ρ) → List Bool → Conn σ
  | [], _ => c
  | op :: q, fails => workOff (c.exec op (fails.headD false)).1 q fails.tail

end Conn

/-! ### The context manager -/

/-- What an await gives to the body. -/
inductive Outcome (ρ : Type) where
  | result (r : ρ)
  | failed
  | cancelled

/-- What the body does in a state. -/
inductive BodyStep (σ ρ β : Type) where
  | finished
  | raised
  | await (f : σ → σ × ρ) (next : Outcome ρ → β)

/-- What the context waits for. -/
inductive ContextPc (σ ρ β : Type) where
  /-- BEGIN IMMEDIATE; `again` after an orphaned transaction was rolled back. -/
  | beginning (b : β) (again : Bool)
  /-- ROLLBACK of an orphaned transaction. -/
  | recovering (b : β)
  /-- A statement of the body. -/
  | running (f : σ → σ × ρ) (next : Outcome ρ → β)
  | committing
  /-- ROLLBACK in the `except` clause. -/
  | cleaning
  /-- The context has been left. -/
  | exited

/-- The connection, its queue and the context that was entered last; contexts are numbered from 1. -/
structure Session (σ ρ β : Type) where
  conn : Conn σ
  queue : List (Ticket (ConnOp σ ρ)) := []
  current : ℕ := 0
  pc : ContextPc σ ρ β := .exited
  mail : Option (Reply ρ) := none

namespace Session
variable {σ ρ β : Type} (prog : β → BodyStep σ ρ β) (s : Session σ ρ β)

/-- The context goes on, and awaits a statement. -/
def send (pc : ContextPc σ ρ β) (op : ConnOp σ ρ) : Session σ ρ β :=
  { s with pc := pc, queue := s.queue ++ [⟨some s.current, op⟩], mail := none }

/-- The context is left. -/
def exit : Session σ ρ β := { s with pc := .exited, mail := none }

/-- The `except` clause. -/
def cleanUp : Session σ ρ β := s.send .cleaning .rollback

/-- The body goes on. -/
def proceed : BodyStep σ ρ β → Session σ ρ β
  | .finished => s.send .committing .commit
  | .raised => s.cleanUp
  | .await f next => s.send (.running f next) (.stmt s.current f)

/-- The context goes on with the answer to its statement. -/
def advance : ContextPc σ ρ β → Reply ρ → Session σ ρ β
  | .beginning b _, .done => s.proceed (prog b)
  | .beginning b false, .nested => s.send (.recovering b) .rollback
  | .recovering b, .done => s.send (.beginning b true) (.begin s.current)
  | .running _ next, .value r => s.proceed (prog (next (.result r)))
  | .running _ next, _ => s.proceed (prog (next .failed))
  | .committing, .done => s.exit
  | .cleaning, _ => s.exit
  | _, _ => s.cleanUp

/-- CancelledError is raised where the context waits. -/
def interrupt : ContextPc σ ρ β → Option (Session σ ρ β)
  | .exited => none
  | .running _ next => some (s.proceed (prog (next .cancelled)))
  | .cleaning => some s.exit
  | _ => some s.cleanUp

/-- Nobody waits for the statement that is queued. -/
def forsake : Session σ ρ β := { s with queue := disown s.current s.queue }

/-- A caller with the lock enters the context. -/
def enter (b : β) : Session σ ρ β :=
  ({ s with current := s.current + 1 } : Session σ ρ β).send (.beginning b false)
    (.begin (s.current + 1))

/-- The worker executes the first statement of the queue. -/
def serve (e : Ticket (ConnOp σ ρ)) (rest : List (Ticket (ConnOp σ ρ))) (fails : Bool) :
    Session σ ρ β :=
  { s with
    conn := (s.conn.exec e.op fails).1
    queue := rest
    mail := if e.owner = some s.current then some (s.conn.exec e.op fails).2 else s.mail }

end Session

/-- What happens next. -/
inductive TxnMove (β : Type) where
  /-- A caller that has got the lock enters the context with a body. -/
  | enter (b : β)
  | execute (fails : Bool)
  | resume
  | cancel
  /-- Another caller reads. -/
  | read

/-- The next state, when the move is possible. -/
def txnStep {σ ρ β : Type} (prog : β → BodyStep σ ρ β) (s : Session σ ρ β) :
    TxnMove β → Option (Session σ ρ β)
  | .enter b => match s.pc with
      | .exited => some (s.enter b)
      | _ => none
  | .execute fails => match s.queue with
      | [] => none
      | e :: rest => some (s.serve e rest fails)
  | .resume => s.mail.map fun r => s.advance prog s.pc r
  | .cancel => s.forsake.interrupt prog s.pc
  | .read => some { s with queue := s.queue ++ [⟨none, .read⟩] }

/-! ### What a statement needs, and what it makes of the transaction -/

variable {σ ρ β : Type}

/-- A statement of a body needs the transaction of its context. -/
def ConnOp.needs : ConnOp σ ρ → Option ℕ → Prop
  | .stmt i _, o => o = some i
  | _, _ => True

/-- The context of the open transaction after a statement, executed or failed. -/
def ConnOp.turn : ConnOp σ ρ → Option ℕ → List (Option ℕ)
  | .begin i, none => [some i, none]
  | .commit, o => [none, o]
  | .rollback, _ => [none]
  | _, o => [o]

/-- Statements that only the context issues. -/
def ConnOp.isControl : ConnOp σ ρ → Bool
  | .read => false
  | _ => true

theorem ConnOp.eq_read {op : ConnOp σ ρ} (h : op.isControl = false) : op = .read := by
  cases op with
  | read => rfl
  | _ => cases h

theorem Conn.owner_exec (c : Conn σ) (op : ConnOp σ ρ) (fails : Bool) (h : op.needs c.owner) :
    (c.exec op fails).1.owner ∈ op.turn c.owner := by
  obtain ⟨committed, working⟩ := c
  cases op with
  | begin i => cases fails <;> cases working <;> simp [exec, owner, ConnOp.turn]
  | commit => cases fails <;> simp [exec, owner, ConnOp.turn]
  | rollback => simp [exec, owner, ConnOp.turn]
  | stmt i f =>
      have hi : (working.map Prod.fst) = some i := h
      cases fails <;> simp [exec, owner, ConnOp.turn, hi]
  | read => simp [exec, ConnOp.turn]

theorem Conn.owner_begin (c : Conn σ) (i : ℕ) (fails : Bool)
    (h : (c.exec (.begin i : ConnOp σ ρ) fails).2 = .done) :
    (c.exec (.begin i : ConnOp σ ρ) fails).1.owner = some i := by
  obtain ⟨committed, working⟩ := c
  cases fails <;> cases working <;> simp_all [exec, owner]

theorem Conn.owner_commit (c : Conn σ) (fails : Bool)
    (h : (c.exec (.commit : ConnOp σ ρ) fails).2 = .done) :
    (c.exec (.commit : ConnOp σ ρ) fails).1.owner = none := by
  cases fails <;> simp_all [exec, owner]

/-- However the worker fails, the queue is worked off to a state with `P`. -/
abbrev Session.Leads (s : Session σ ρ β) (P : Option ℕ → Prop) : Prop :=
  Ensures ConnOp.needs ConnOp.turn P (s.queue.map Ticket.op) s.conn.owner

theorem Conn.owner_workOff {P : Option ℕ → Prop} : ∀ {q : List (ConnOp σ ρ)} {c : Conn σ}
    (fails : List Bool), Ensures ConnOp.needs ConnOp.turn P q c.owner →
      P (c.workOff q fails).owner
  | [], _, _, h => h
  | op :: _, c, fails, h =>
      owner_workOff fails.tail (h.2 _ (c.owner_exec op (fails.headD false) h.1))

/-! ### The invariant -/

/-- The statement that the context awaits. -/
def Session.awaited (s : Session σ ρ β) : List (ConnOp σ ρ) :=
  match s.pc with
  | .beginning .. => [.begin s.current]
  | .recovering _ | .cleaning => [.rollback]
  | .running f _ => [.stmt s.current f]
  | .committing => [.commit]
  | .exited => []

/-- The transaction is the context's, and nothing in the queue ends it. -/
def Session.Active (s : Session σ ρ β) : Prop :=
  s.conn.owner = some s.current ∧ ∀ e ∈ s.queue, e.op = .read ∨ ∃ f, e.op = .stmt s.current f

/-- What the queue does to the transaction, at each stage of the context. -/
def Session.Bound (s : Session σ ρ β) : ContextPc σ ρ β → Prop
  | .beginning .. => s.Leads (fun _ => True) ∧ Trailing ConnOp.isControl s.current s.queue ∧
      (s.mail = some .done → s.conn.owner = some s.current)
  | .recovering _ => s.Leads fun _ => True
  | .running .. => s.Active
  | .committing => s.Leads (fun _ => True) ∧ Trailing ConnOp.isControl s.current s.queue ∧
      (s.mail = some .done → s.conn.owner = none)
  | .cleaning => s.Leads (· = none)
  | .exited => s.Leads fun o => 0 < s.current → o = none

/-- The invariant of a session. -/
structure Session.Tidy (s : Session σ ρ β) : Prop where
  later : ∀ i, s.current < i → owned i s.queue = []
  awaits : owned s.current s.queue = if s.mail.isSome then [] else s.awaited
  bound : s.Bound s.pc

namespace Session
variable {s : Session σ ρ β} {prog : β → BodyStep σ ρ β} {P Q : Option ℕ → Prop}

theorem Leads.mono (h : s.Leads P) (hPQ : ∀ o, P o → Q o) : s.Leads Q := Ensures.mono hPQ h

/-- A queue without BEGIN, COMMIT and ROLLBACK keeps the transaction. -/
theorem leads_of_active (h : s.Active) : s.Leads (· = some s.current) := by
  refine ensures_of_forall (P := (· = some s.current)) ?_ h.1
  intro op hop o ho
  obtain ⟨e, he, rfl⟩ := List.mem_map.mp hop
  obtain hr | ⟨f, hf⟩ := h.2 e he
  · rw [hr]
    exact ⟨trivial, fun o' ho' => by simpa [ConnOp.turn, ho] using ho'⟩
  · rw [hf]
    exact ⟨ho, fun o' ho' => by simpa [ConnOp.turn, ho] using ho'⟩

/-- Reads do not touch the transaction. -/
theorem leads_of_reads (h : ∀ e ∈ s.queue, ConnOp.isControl e.op = false) (hP : P s.conn.owner) :
    s.Leads P := by
  apply ensures_of_forall _ hP
  intro op hop o ho
  obtain ⟨e, he, rfl⟩ := List.mem_map.mp hop
  rw [ConnOp.eq_read (h e he)]
  exact ⟨trivial, fun o' ho' => by rwa [List.mem_singleton.mp ho']⟩

/-- A statement that is queued is executed in a state that the queue leads to. -/
theorem Leads.append {e : Ticket (ConnOp σ ρ)} {s' : Session σ ρ β} (h : s.Leads P)
    (hq : s'.queue = s.queue ++ [e]) (hc : s'.conn = s.conn)
    (he : ∀ o, P o → e.op.needs o ∧ ∀ o' ∈ e.op.turn o, Q o') : s'.Leads Q := by
  unfold Leads
  rw [hq, hc, List.map_append, ensures_append]
  exact Ensures.mono he h

theorem leads_forsake : s.forsake.Leads P ↔ s.Leads P := by
  have hq : s.forsake.queue.map Ticket.op = s.queue.map Ticket.op := by
    simp [forsake, disown, Function.comp_def]
  show Ensures _ _ _ _ _ ↔ Ensures _ _ _ _ _
  rw [hq]
  rfl

/-! ### What the context does keeps it -/

/-- The context sends a statement when it awaits none. -/
theorem tidy_send {pc : ContextPc σ ρ β} {op : ConnOp σ ρ}
    (hl : ∀ i, s.current < i → owned i s.queue = [])
    (ho : owned s.current s.queue = []) (ha : (s.send pc op).awaited = [op])
    (hb : (s.send pc op).Bound pc) : (s.send pc op).Tidy := by
  refine ⟨fun i hi => ?_, ?_, hb⟩
  · show owned i (s.queue ++ [⟨some s.current, op⟩]) = []
    have hne : (some s.current : Option ℕ) ≠ some i := by
      intro h
      exact absurd (Option.some.inj h) (Nat.ne_of_lt hi)
    rw [owned_append, hl i hi, owned_cons, if_neg hne]
    rfl
  · show owned s.current (s.queue ++ [⟨some s.current, op⟩]) = (s.send pc op).awaited
    rw [owned_append, ho, owned_cons, if_pos rfl, ha]
    rfl

theorem tidy_cleanUp (hl : ∀ i, s.current < i → owned i s.queue = [])
    (ho : owned s.current s.queue = []) (h : s.Leads fun _ => True) : s.cleanUp.Tidy := by
  apply tidy_send hl ho rfl
  show Leads _ _
  exact h.append rfl rfl fun o _ => ⟨trivial, fun o' ho' => List.mem_singleton.mp ho'⟩

theorem tidy_begin (hl : ∀ i, s.current < i → owned i s.queue = [])
    (ho : owned s.current s.queue = []) (h : s.Leads fun _ => True) (b : β) (again : Bool) :
    (s.send (.beginning b again) (.begin s.current)).Tidy := by
  apply tidy_send hl ho rfl
  refine ⟨h.append rfl rfl fun _ _ => ⟨trivial, fun _ _ => trivial⟩, ?_, ?_⟩
  · exact trailing_append_own _ _ _
  · intro hm
    cases hm

/-- The body goes on in its transaction. -/
theorem tidy_proceed (hl : ∀ i, s.current < i → owned i s.queue = [])
    (ho : owned s.current s.queue = []) (h : s.Active) (step : BodyStep σ ρ β) :
    (s.proceed step).Tidy := by
  have hlead : s.Leads fun _ => True := (leads_of_active h).mono fun _ _ => trivial
  cases step with
  | finished =>
      apply tidy_send hl ho rfl
      refine ⟨hlead.append rfl rfl fun _ _ => ⟨trivial, fun _ _ => trivial⟩, ?_, ?_⟩
      · exact trailing_append_own _ _ _
      · intro hm
        cases hm
  | raised => exact tidy_cleanUp hl ho hlead
  | await f next =>
      apply tidy_send hl ho rfl
      refine ⟨h.1, fun e he => ?_⟩
      rcases List.mem_append.mp he with he | he
      · exact h.2 e he
      · rw [List.mem_singleton.mp he]
        exact Or.inr ⟨f, rfl⟩

theorem tidy_exit (hl : ∀ i, s.current < i → owned i s.queue = [])
    (ho : owned s.current s.queue = []) (h : s.Leads (· = none)) : s.exit.Tidy :=
  ⟨hl, ho, Leads.mono (s := s.exit) h fun _ ho _ => ho⟩

/-- In the transaction that BEGIN has opened. -/
theorem active_of_begun (ht : Trailing ConnOp.isControl s.current s.queue)
    (ho : owned s.current s.queue = []) (hc : s.conn.owner = some s.current) : s.Active := by
  refine ⟨hc, fun e he => Or.inl ?_⟩
  exact ConnOp.eq_read (ht.none_left ho e he)

/-- The context goes on with an answer. -/
theorem tidy_advance (h : s.Tidy) {r : Reply ρ} (hm : s.mail = some r) :
    (s.advance prog s.pc r).Tidy := by
  have hl := h.later
  have ho : owned s.current s.queue = [] := by
    have ha := h.awaits
    rwa [hm] at ha
  have hb := h.bound
  cases hpc : s.pc with
  | beginning b again =>
      rw [hpc] at hb
      obtain ⟨hlead, htrail, hown⟩ := hb
      cases r with
      | done => exact tidy_proceed hl ho (active_of_begun htrail ho (hown hm)) _
      | nested =>
          cases again with
          | false =>
              apply tidy_send hl ho rfl
              show Leads _ _
              exact hlead.append rfl rfl fun _ _ => ⟨trivial, fun _ _ => trivial⟩
          | true => exact tidy_cleanUp hl ho hlead
      | value r => exact tidy_cleanUp hl ho hlead
      | failed => exact tidy_cleanUp hl ho hlead
  | recovering b =>
      rw [hpc] at hb
      cases r with
      | done => exact tidy_begin hl ho hb b true
      | nested => exact tidy_cleanUp hl ho hb
      | value r => exact tidy_cleanUp hl ho hb
      | failed => exact tidy_cleanUp hl ho hb
  | running f next =>
      rw [hpc] at hb
      cases r with
      | value r => exact tidy_proceed hl ho hb _
      | done => exact tidy_proceed hl ho hb _
      | nested => exact tidy_proceed hl ho hb _
      | failed => exact tidy_proceed hl ho hb _
  | committing =>
      rw [hpc] at hb
      obtain ⟨hlead, htrail, hown⟩ := hb
      cases r with
      | done => exact tidy_exit hl ho (leads_of_reads (htrail.none_left ho) (hown hm))
      | nested => exact tidy_cleanUp hl ho hlead
      | value r => exact tidy_cleanUp hl ho hlead
      | failed => exact tidy_cleanUp hl ho hlead
  | cleaning =>
      rw [hpc] at hb
      exact tidy_exit hl ho hb
  | exited =>
      rw [hpc] at hb
      exact tidy_cleanUp hl ho (hb.mono fun _ _ => trivial)

theorem tidy_interrupt {s' : Session σ ρ β} (h : s.Tidy)
    (hs : s.forsake.interrupt prog s.pc = some s') : s'.Tidy := by
  have hl : ∀ i, s.forsake.current < i → owned i s.forsake.queue = [] := by
    intro i hi
    show owned i (disown s.current s.queue) = []
    have hne : i ≠ s.current := Nat.ne_of_gt hi
    rw [owned_disown hne, h.later i hi]
  have ho : owned s.forsake.current s.forsake.queue = [] := owned_disown_self _ _
  have hb := h.bound
  cases hpc : s.pc with
  | beginning b again =>
      rw [hpc] at hb hs
      cases hs
      exact tidy_cleanUp hl ho (leads_forsake.mpr hb.1)
  | recovering b =>
      rw [hpc] at hb hs
      cases hs
      exact tidy_cleanUp hl ho (leads_forsake.mpr hb)
  | running f next =>
      rw [hpc] at hb hs
      cases hs
      refine tidy_proceed hl ho ⟨hb.1, fun e he => ?_⟩ _
      obtain ⟨e', he', hop⟩ := mem_disown he
      rw [← hop]
      exact hb.2 e' he'
  | committing =>
      rw [hpc] at hb hs
      cases hs
      exact tidy_cleanUp hl ho (leads_forsake.mpr hb.1)
  | cleaning =>
      rw [hpc] at hb hs
      cases hs
      exact tidy_exit hl ho (leads_forsake.mpr hb)
  | exited =>
      rw [hpc] at hs
      cases hs

theorem tidy_enter (h : s.Tidy) (hpc : s.pc = .exited) (b : β) : (s.enter b).Tidy := by
  have hb := h.bound
  rw [hpc] at hb
  apply tidy_begin (s := { s with current := s.current + 1 })
  · intro i hi
    exact h.later i (by simp at hi; omega)
  · exact h.later _ (Nat.lt_succ_self _)
  · exact hb.mono fun _ _ => trivial

/-! ### What the worker does keeps it -/

/-- The head of the queue has been executed. -/
theorem leads_serve {e : Ticket (ConnOp σ ρ)} {rest : List (Ticket (ConnOp σ ρ))}
    (hq : s.queue = e :: rest) (fails : Bool) (h : s.Leads P) : (s.serve e rest fails).Leads P := by
  unfold Leads at h
  rw [hq] at h
  exact h.2 _ (s.conn.owner_exec e.op fails h.1)

/-- The answer that has arrived is not outdated by what is executed after it. -/
theorem owner_serve_of_mail {e : Ticket (ConnOp σ ρ)} {rest : List (Ticket (ConnOp σ ρ))}
    (h : s.Tidy) (hq : s.queue = e :: rest) (ht : Trailing ConnOp.isControl s.current s.queue)
    (hm : s.mail.isSome) (fails : Bool) : (s.conn.exec e.op fails).1 = s.conn := by
  have ho : owned s.current s.queue = [] := by
    rw [h.awaits, if_pos hm]
  rw [ConnOp.eq_read (ht.none_left ho e (hq ▸ List.mem_cons_self))]
  rfl

/-- The statement that is executed for the context is the one it awaits. -/
theorem awaited_of_served {e : Ticket (ConnOp σ ρ)} {rest : List (Ticket (ConnOp σ ρ))}
    (h : s.Tidy) (hq : s.queue = e :: rest) (he : e.owner = some s.current) :
    s.mail = none ∧ s.awaited = [e.op] ∧ owned s.current rest = [] := by
  have ha := h.awaits
  rw [hq, owned_cons, if_pos he] at ha
  cases hm : s.mail with
  | some r => simp [hm] at ha
  | none =>
      rw [hm] at ha
      simp only [Option.isSome_none, Bool.false_eq_true, if_false] at ha
      have hone : s.awaited.length ≤ 1 := by
        unfold awaited
        split <;> simp
      rw [← ha, List.length_cons] at hone
      have hrest : owned s.current rest = [] := List.length_eq_zero_iff.mp (by omega)
      exact ⟨rfl, by rw [← ha, hrest], hrest⟩

/-- What an answer says of the transaction is right when it arrives, and stays right. -/
theorem answer_serve {e : Ticket (ConnOp σ ρ)} {rest : List (Ticket (ConnOp σ ρ))} {op : ConnOp σ ρ}
    {o : Option ℕ} (h : s.Tidy) (hq : s.queue = e :: rest)
    (ht : Trailing ConnOp.isControl s.current s.queue) (fails : Bool) (ha : s.awaited = [op])
    (hop : (s.conn.exec op fails).2 = .done → (s.conn.exec op fails).1.owner = o)
    (hold : s.mail = some .done → s.conn.owner = o)
    (hm : (s.serve e rest fails).mail = some .done) : (s.serve e rest fails).conn.owner = o := by
  change (if e.owner = some s.current then _ else s.mail) = _ at hm
  show (s.conn.exec e.op fails).1.owner = o
  split_ifs at hm with he
  · obtain ⟨-, hawait, -⟩ := awaited_of_served h hq he
    rw [ha] at hawait
    rw [List.singleton_inj.mp hawait] at hop
    exact hop (Option.some.inj hm)
  · rw [owner_serve_of_mail h hq ht (by rw [hm]; rfl)]
    exact hold hm

theorem tidy_serve {e : Ticket (ConnOp σ ρ)} {rest : List (Ticket (ConnOp σ ρ))} (h : s.Tidy)
    (hq : s.queue = e :: rest) (fails : Bool) : (s.serve e rest fails).Tidy := by
  have htail : ∀ i, owned i s.queue = [] → owned i rest = [] := by
    intro i hi
    rw [hq, owned_cons] at hi
    split_ifs at hi
    exact hi
  refine ⟨fun i hi => htail i (h.later i hi), ?_, ?_⟩
  · show owned s.current rest =
      if (if e.owner = some s.current then _ else s.mail).isSome = true then [] else s.awaited
    by_cases he : e.owner = some s.current
    · rw [if_pos he, (awaited_of_served h hq he).2.2]
      rfl
    · have ha := h.awaits
      rw [hq, owned_cons, if_neg he] at ha
      rw [if_neg he, ha]
  · have hb := h.bound
    show (s.serve e rest fails).Bound s.pc
    cases hpc : s.pc with
    | beginning b again =>
        rw [hpc] at hb
        obtain ⟨hlead, ht, hown⟩ := hb
        refine ⟨leads_serve hq fails hlead, (hq ▸ ht).2, ?_⟩
        exact answer_serve h hq ht fails (by simp [awaited, hpc]) (s.conn.owner_begin s.current fails)
          hown
    | recovering b =>
        rw [hpc] at hb
        exact leads_serve hq fails hb
    | running f next =>
        rw [hpc] at hb
        refine ⟨?_, fun e' he' => hb.2 e' (hq ▸ List.mem_cons_of_mem _ he')⟩
        show (s.conn.exec e.op fails).1.owner = some s.current
        have hown := s.conn.owner_exec e.op fails
        obtain hr | ⟨g, hg⟩ := hb.2 e (hq ▸ List.mem_cons_self)
        · rw [hr] at hown ⊢
          exact (List.mem_singleton.mp (hown trivial)).trans hb.1
        · rw [hg] at hown ⊢
          exact (List.mem_singleton.mp (hown hb.1)).trans hb.1
    | committing =>
        rw [hpc] at hb
        obtain ⟨hlead, ht, hown⟩ := hb
        refine ⟨leads_serve hq fails hlead, (hq ▸ ht).2, ?_⟩
        exact answer_serve h hq ht fails (by simp [awaited, hpc]) (s.conn.owner_commit fails) hown
    | cleaning =>
        rw [hpc] at hb
        exact leads_serve hq fails hb
    | exited =>
        rw [hpc] at hb
        exact leads_serve hq fails hb

theorem tidy_read (h : s.Tidy) :
    ({ s with queue := s.queue ++ [⟨none, .read⟩] } : Session σ ρ β).Tidy := by
  have hown : ∀ i, owned i (s.queue ++ [⟨none, .read⟩]) = owned i s.queue := by
    intro i
    rw [owned_append]
    exact List.append_nil _
  have hlead : ∀ {P : Option ℕ → Prop}, s.Leads P →
      ({ s with queue := s.queue ++ [⟨none, .read⟩] } : Session σ ρ β).Leads P := by
    intro P hP
    exact hP.append rfl rfl fun o ho => ⟨trivial, fun o' ho' => by rwa [List.mem_singleton.mp ho']⟩
  refine ⟨fun i hi => (hown i).trans (h.later i hi), (hown _).trans h.awaits, ?_⟩
  have hb := h.bound
  show Bound _ s.pc
  cases hpc : s.pc with
  | beginning b again =>
      rw [hpc] at hb
      exact ⟨hlead hb.1, hb.2.1.append_other rfl (by simp), hb.2.2⟩
  | recovering b =>
      rw [hpc] at hb
      exact hlead hb
  | running f next =>
      rw [hpc] at hb
      refine ⟨hb.1, fun e he => ?_⟩
      rcases List.mem_append.mp he with he | he
      · exact hb.2 e he
      · rw [List.mem_singleton.mp he]
        exact Or.inl rfl
  | committing =>
      rw [hpc] at hb
      exact ⟨hlead hb.1, hb.2.1.append_other rfl (by simp), hb.2.2⟩
  | cleaning =>
      rw [hpc] at hb
      exact hlead hb
  | exited =>
      rw [hpc] at hb
      exact hlead hb

/-- Every step keeps the invariant. -/
theorem tidy_step {s' : Session σ ρ β} {m : TxnMove β} (h : s.Tidy)
    (hs : txnStep prog s m = some s') : s'.Tidy := by
  cases m with
  | enter b =>
      simp only [txnStep] at hs
      split at hs
      · rename_i hpc
        cases hs
        exact tidy_enter h hpc b
      · cases hs
  | execute fails =>
      simp only [txnStep] at hs
      split at hs
      · cases hs
      · rename_i e rest hq
        cases hs
        exact tidy_serve h hq fails
  | resume =>
      obtain ⟨r, hm, rfl⟩ := Option.map_eq_some_iff.mp hs
      exact tidy_advance h hm
  | cancel => exact tidy_interrupt h hs
  | read =>
      cases hs
      exact tidy_read h

/-- The session before the first context, with an orphaned transaction on the connection or none. -/
def opened (t : σ) (orphan : Option σ) : Session σ ρ β :=
  { conn := ⟨t, orphan.map (Prod.mk 0)⟩ }

theorem tidy_opened (t : σ) (orphan : Option σ) : (opened t orphan : Session σ ρ β).Tidy := by
  refine ⟨fun _ _ => rfl, rfl, ?_⟩
  intro h
  exact absurd h (Nat.lt_irrefl 0)

theorem tidy_of_reaches {t : σ} {orphan : Option σ}
    (h : Reaches (txnStep prog) (opened t orphan) s) : s.Tidy :=
  h.invariant (tidy_opened t orphan) fun _ _ _ _ hi hs => tidy_step hi hs

/-- At every stage the first statement finds what it needs. -/
theorem leads_of_tidy (h : s.Tidy) : s.Leads fun _ => True := by
  have hb := h.bound
  cases hpc : s.pc with
  | beginning b again =>
      rw [hpc] at hb
      exact hb.1
  | recovering b =>
      rw [hpc] at hb
      exact hb
  | running f next =>
      rw [hpc] at hb
      exact (leads_of_active hb).mono fun _ _ => trivial
  | committing =>
      rw [hpc] at hb
      exact hb.1
  | cleaning =>
      rw [hpc] at hb
      exact hb.mono fun _ _ => trivial
  | exited =>
      rw [hpc] at hb
      exact hb.mono fun _ _ => trivial

end Session

/-- **No orphan transaction**: whatever the bodies do and wherever they are cancelled, a statement of
a body is executed in the transaction that its own context began, and once a context has been left,
working off the queue leaves no transaction open. -/
theorem no_orphan_transaction (prog : β → BodyStep σ ρ β) (t : σ) (orphan : Option σ)
    {s : Session σ ρ β} (h : Reaches (txnStep prog) (Session.opened t orphan) s) :
    (∀ e rest i f, s.queue = e :: rest → e.op = .stmt i f → s.conn.owner = some i) ∧
    (0 < s.current → s.pc = .exited → ∀ fails,
      (s.conn.workOff (s.queue.map Ticket.op) fails).working = none) := by
  have ht := Session.tidy_of_reaches h
  refine ⟨fun e rest i f hq hop => ?_, fun hc hpc fails => ?_⟩
  · have hlead := Session.leads_of_tidy ht
    unfold Session.Leads at hlead
    rw [hq, List.map_cons, hop] at hlead
    exact hlead.1
  · have hb := ht.bound
    rw [hpc] at hb
    have hnone := Conn.owner_workOff fails hb hc
    exact Option.map_eq_none_iff.mp hnone

/-- A body of one statement. -/
def addOne : ℕ → BodyStep ℕ Unit ℕ
  | 0 => .await (fun n => (n + 1, ())) fun o => match o with
      | .result _ => 1
      | _ => 2
  | 1 => .finished
  | _ => .raised

/-- The context has been left. -/
def hasExited : ContextPc ℕ Unit ℕ → Bool
  | .exited => true
  | _ => false

theorem hasExited_iff {pc : ContextPc ℕ Unit ℕ} : hasExited pc = true ↔ pc = .exited := by
  cases pc <;> simp [hasExited]

/-- The first operation of the queue is a statement of this context, abandoned by its waiter. -/
def headRuns (i : ℕ) : List (Ticket (ConnOp ℕ Unit)) → Bool
  | ⟨none, .stmt j _⟩ :: _ => i = j
  | _ => false

theorem exists_of_headRuns {i : ℕ} {queue : List (Ticket (ConnOp ℕ Unit))}
    (h : headRuns i queue = true) : ∃ f rest, queue = ⟨none, .stmt i f⟩ :: rest := by
  unfold headRuns at h
  split at h
  · rename_i j f rest
    obtain rfl : i = j := of_decide_eq_true h
    exact ⟨f, rest, rfl⟩
  · cases h

/-- An orphaned transaction is met, the body is cancelled at its statement and again in the clean-up;
its statement is still queued, with the ROLLBACK behind it. -/
theorem cancelled_twice_leaves_no_transaction :
    ∃ s, Reaches (txnStep addOne) (Session.opened 0 (some 7)) s ∧ s.queue.length = 2 ∧
      s.conn.owner = some 1 ∧
      (s.conn.workOff (s.queue.map Ticket.op) [false, false]).working = none := by
  obtain ⟨s, hs, hp⟩ := exists_reaches_of_run (txnStep addOne)
    [TxnMove.enter 0, .execute false, .resume, .execute false, .resume, .execute false, .resume,
      .cancel, .cancel] (Session.opened 0 (some 7))
    (fun s => s.queue.length = 2 && s.current = 1 && hasExited s.pc && headRuns 1 s.queue) (by decide)
  simp only [Bool.and_eq_true, decide_eq_true_eq] at hp
  obtain ⟨⟨⟨hlen, hcur⟩, hpc⟩, hhead⟩ := hp
  obtain ⟨hown, hnone⟩ := no_orphan_transaction addOne 0 (some 7) hs
  obtain ⟨f, rest, hq⟩ := exists_of_headRuns hhead
  exact ⟨s, hs, hlen, hown _ _ 1 f hq rfl, hnone (by omega) (hasExited_iff.mp hpc) _⟩

end JAgent
