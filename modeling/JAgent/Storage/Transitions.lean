import JAgent.Storage.EventStore

/-! # What a move of the store can do

A move is either the worker's, which executes the first statement of the queue (`Store.serve`), or
one of a call, which goes from one stage to another, queues at most one statement and touches
neither the database nor the other calls (`Goes`).  `Follows` lists the transitions of a call that
resumes with the result of its statement.  `Orderly` is what the queue and the lock look like in
every reachable state: a call that waits has exactly its own statement in the queue, and the
statements that write are those of the holder of the lock or stand in front of them. -/

namespace JAgent
open Lib

/-! ### The statement a call waits for -/

/-- What a call may have in the queue at a stage. -/
def Awaits (call : StoreCall) : Stage → SqlOp → Prop
  | .checking, op | .rereading, op | .writing _ _ .rechecking, op => op.isWrite = false
  | .writing _ _ (.beginning _), op => op = .begin
  | .writing _ _ .recovering, op | .writing _ _ (.cleaning _), op => op = .rollback
  | .writing row _ .numbering, op => op = .select (.nextSeq row.runId) ∨ ∃ a, op = .fetch a
  | .writing _ _ .claiming, op => ∃ c payload w, call = .claim c payload w ∧ op = .insertClaim c
  | .writing row _ .inserting, op => op = .insertEvent row
  | .writing _ _ .committing, op => op = .commit
  | _, _ => False

/-- A call outside the lock waits for a read. -/
theorem Awaits.isWrite {call : StoreCall} {stage : Stage} {op : SqlOp} (h : Awaits call stage op)
    (hs : stage.inside = false) : op.isWrite = false := by
  unfold Awaits at h
  split at h <;> simp_all [Stage.inside]

/-- A call has in the queue what its stage says, and nothing once the result has arrived. -/
def StoreTask.Expects (t : StoreTask) (ops : List SqlOp) : Prop :=
  (ops = [] ∧ (t.mail.isSome ∨ t.stage.waits = false)) ∨
    (t.mail = none ∧ ∃ op, ops = [op] ∧ Awaits t.call t.stage op)

theorem StoreTask.Expects.nil {t : StoreTask} {ops : List SqlOp} (h : t.Expects ops)
    (hm : t.mail.isSome) : ops = [] := by
  rcases h with ⟨h, _⟩ | ⟨h, _⟩
  · exact h
  · rw [h] at hm
    exact absurd hm (by simp)

theorem StoreTask.Expects.nil_of_waits {t : StoreTask} {ops : List SqlOp} (h : t.Expects ops)
    (hw : t.stage.waits = false) : ops = [] := by
  rcases h with ⟨h, _⟩ | ⟨_, op, _, h⟩
  · exact h
  · unfold Awaits at h
    split at h <;> simp_all [Stage.waits]

/-- The statement the worker executes is what its owner awaits. -/
theorem StoreTask.Expects.awaits {t : StoreTask} {op : SqlOp} {ops : List SqlOp}
    (h : t.Expects (op :: ops)) : t.mail = none ∧ ops = [] ∧ Awaits t.call t.stage op := by
  rcases h with ⟨h, _⟩ | ⟨hm, op', h, ha⟩
  · exact absurd h (by simp)
  · simp only [List.cons.injEq] at h
    exact ⟨hm, h.2, h.1 ▸ ha⟩

/-! ### The moves of a call -/

/-- A call goes to a stage and queues a statement. -/
structure Goes (s u : Store) (i : ℕ) (call : StoreCall) (stage : Stage) (op : Option SqlOp) :
    Prop where
  db : u.db = s.db
  self : u.tasks[i]? = some { call := call, stage := stage }
  other : ∀ j, j ≠ i → u.tasks[j]? = s.tasks[j]?
  queue : ∃ q, (q = s.queue ∨ q = disown i s.queue) ∧ owned i q = [] ∧
    u.queue = q ++ op.toList.map (Ticket.mk (some i))
  holder : u.holder = if stage.inside then some i else if s.holder = some i then none else s.holder
  entry : stage.inside → s.holder = some i ∨ s.holder = none
  awaits : op.elim (stage.waits = false) (Awaits call stage)

/-- The SELECT of a stage is still to be fetched. -/
def Stage.reads : Stage → Bool
  | .checking | .rereading | .writing _ _ .numbering | .writing _ _ .rechecking => true
  | _ => false

/-- The body of a transaction, BEGIN and COMMIT included. -/
def TxnPc.inBody : TxnPc → Bool
  | .cleaning _ | .rechecking => false
  | _ => true

/-- The transitions of a call that resumes. -/
inductive Follows (s : Store) (call : StoreCall) : Stage → SqlResult → Stage → Option SqlOp → Prop
  | fetch {stage : Stage} {a : SqlAnswer} :
      stage.reads → Follows s call stage (.cursor a) stage (some (.fetch a))
  | hit {d : EventDraft} {row : EventRow} : call = .append d →
      Follows s call .checking (.answer (.event (some row))) (.returned row) none
  | miss {d : EventDraft} : call = .append d →
      Follows s call .checking (.answer (.event none)) (.queued (s.rowFor d)) none
  | taken {c c' : ClaimRow} {p : Obj} {w : Option String} : call = .claim c p w →
      Follows s call .checking (.answer (.claim (some c'))) (.claimed c'.runId false) none
  | free {c : ClaimRow} {p : Obj} {w : Option String} : call = .claim c p w →
      Follows s call .checking (.answer (.claim none)) (.queued (c.runStarted p w)) none
  | answered {q : Query} {a : SqlAnswer} : call = .read q →
      Follows s call .checking (.answer a) (.answered a) none
  | raised {stage : Stage} {r : SqlResult} : Follows s call stage r .raised none
  | claiming {row : EventRow} {n : ℕ} {b : Bool} {c : ClaimRow} {p : Obj} {w : Option String} :
      call = .claim c p w → Follows s call (.writing row n (.beginning b)) .done
        (.writing row n .claiming) (some (.insertClaim c))
  | numbering {row : EventRow} {n : ℕ} {b : Bool} : (∀ c p w, call ≠ .claim c p w) →
      Follows s call (.writing row n (.beginning b)) .done
        (.writing row n .numbering) (some (.select (.nextSeq row.runId)))
  | orphan {row : EventRow} {n : ℕ} : Follows s call (.writing row n (.beginning false)) .nested
      (.writing row n .recovering) (some .rollback)
  | recovered {row : EventRow} {n : ℕ} : Follows s call (.writing row n .recovering) .done
      (.writing row n (.beginning true)) (some .begin)
  | numbered {row : EventRow} {n k : ℕ} :
      Follows s call (.writing row n .numbering) (.answer (.seq k))
        (.writing { row with seq := k } n .inserting) (some (.insertEvent { row with seq := k }))
  | claimed {row : EventRow} {n : ℕ} : Follows s call (.writing row n .claiming) .done
      (.writing row n .inserting) (some (.insertEvent row))
  | inserted {row : EventRow} {n : ℕ} : Follows s call (.writing row n .inserting) .done
      (.writing row n .committing) (some .commit)
  | cleanUp {row : EventRow} {n : ℕ} {pc : TxnPc} {r : SqlResult} {cause : Cause} :
      pc.inBody → Follows s call (.writing row n pc) r
        (.writing row n (.cleaning cause)) (some .rollback)
  | publish {row : EventRow} {n : ℕ} :
      Follows s call (.writing row n .committing) .done (.publishing row 0) none
  | finish {row : EventRow} {n : ℕ} {stage : Stage} : stage = Store.finalStage call row →
      Follows s call (.writing row n .committing) .done stage none
  | retry {row : EventRow} {n : ℕ} {r : SqlResult} :
      Follows s call (.writing row n (.cleaning .duplicate)) r
        (.writing row (n + 1) (.beginning false)) (some .begin)
  | recheck {row : EventRow} {n : ℕ} {r : SqlResult} {d : EventDraft} {key : String} :
      call = .append d → d.idempotencyKey = some key →
      Follows s call (.writing row n (.cleaning .duplicateKey)) r
        (.writing row n .rechecking) (some (.select (.byKey d.runId d.eventType key)))
  | reread {row : EventRow} {n : ℕ} {r : SqlResult} {cause : Cause} {c : ClaimRow} {p : Obj}
      {w : Option String} : call = .claim c p w →
      Follows s call (.writing row n (.cleaning cause)) r .rereading
        (some (.select (.byRequest c.tenantId c.conversationId c.clientRequestId)))
  | found {row row' : EventRow} {n : ℕ} :
      Follows s call (.writing row n .rechecking) (.answer (.event (some row'))) (.returned row') none
  | lost {c' : ClaimRow} :
      Follows s call .rereading (.answer (.claim (some c'))) (.claimed c'.runId false) none

@[simp] theorem inside_finalStage (call : StoreCall) (row : EventRow) :
    (Store.finalStage call row).inside = false := by
  cases call <;> rfl

@[simp] theorem waits_finalStage (call : StoreCall) (row : EventRow) :
    (Store.finalStage call row).waits = false := by
  cases call <;> rfl

/-- The statement of a transition is what the new stage waits for. -/
theorem Follows.awaits {s : Store} {call : StoreCall} {stage stage' : Stage} {r : SqlResult}
    {op : Option SqlOp} (h : Follows s call stage r stage' op) :
    op.elim (stage'.waits = false) (Awaits call stage') := by
  cases h with
  | @fetch stage a hr =>
      unfold Stage.reads at hr
      split at hr <;> simp_all [Awaits, SqlOp.isWrite]
  | claiming hc => exact ⟨_, _, _, hc, rfl⟩
  | numbering _ => exact .inl rfl
  | finish hs =>
      rw [hs]
      exact waits_finalStage _ _
  | _ => rfl

/-- The lock is only kept, never taken, by a call that resumes. -/
theorem Follows.inside {s : Store} {call : StoreCall} {stage stage' : Stage} {r : SqlResult}
    {op : Option SqlOp} (h : Follows s call stage r stage' op) (hi : stage'.inside) :
    stage.inside := by
  cases h with
  | fetch _ => exact hi
  | finish hs =>
      rw [hs, inside_finalStage] at hi
      exact absurd hi (by simp)
  | _ => first | rfl | exact absurd hi (by simp [Stage.inside])

/-- `u` is `s.go i t stage op` but for the caches and the callbacks. -/
structure Went (s u : Store) (i : ℕ) (t : StoreTask) (stage : Stage) (op : Option SqlOp) : Prop where
  db : u.db = s.db
  tasks : u.tasks = (s.go i t stage op).tasks
  queue : u.queue = (s.go i t stage op).queue
  holder : u.holder = (s.go i t stage op).holder

section Resuming
variable {s u : Store} {i : ℕ} {t : StoreTask} {r : SqlResult}

theorem publish_went (row : EventRow) (k : ℕ) :
    Went s (s.publish i t row k) i t (.publishing row k) none ∨
      Went s (s.publish i t row k) i t (Store.finalStage t.call row) none := by
  unfold Store.publish
  split_ifs
  · exact .inl ⟨rfl, rfl, rfl, rfl⟩
  · exact .inr ⟨rfl, rfl, rfl, rfl⟩

theorem checked_went :
    ∃ stage op, Went s (s.checked i t r) i t stage op ∧ Follows s t.call .checking r stage op := by
  unfold Store.checked
  split
  · exact ⟨_, _, ⟨rfl, rfl, rfl, rfl⟩, .fetch rfl⟩
  · split
    · rename_i hc
      exact ⟨_, _, ⟨rfl, rfl, rfl, rfl⟩, .hit hc⟩
    · rename_i hc
      exact ⟨_, _, ⟨rfl, rfl, rfl, rfl⟩, .miss hc⟩
    · rename_i hc
      exact ⟨_, _, ⟨rfl, rfl, rfl, rfl⟩, .taken hc⟩
    · rename_i hc
      exact ⟨_, _, ⟨rfl, rfl, rfl, rfl⟩, .free hc⟩
    · rename_i hc
      exact ⟨_, _, ⟨rfl, rfl, rfl, rfl⟩, .answered hc⟩
    · exact ⟨_, _, ⟨rfl, rfl, rfl, rfl⟩, .raised⟩
  · exact ⟨_, _, ⟨rfl, rfl, rfl, rfl⟩, .raised⟩

theorem reread_went :
    ∃ stage op, Went s (s.reread i t r) i t stage op ∧ Follows s t.call .rereading r stage op := by
  unfold Store.reread
  split
  · exact ⟨_, _, ⟨rfl, rfl, rfl, rfl⟩, .fetch rfl⟩
  · exact ⟨_, _, ⟨rfl, rfl, rfl, rfl⟩, .lost⟩
  · exact ⟨_, _, ⟨rfl, rfl, rfl, rfl⟩, .raised⟩

theorem enterBody_went {row : EventRow} {n : ℕ} {b : Bool} :
    ∃ stage op, Went s (s.enterBody i t row n) i t stage op ∧
      Follows s t.call (.writing row n (.beginning b)) .done stage op := by
  unfold Store.enterBody
  split
  · rename_i hc
    exact ⟨_, _, ⟨rfl, rfl, rfl, rfl⟩, .claiming hc⟩
  · rename_i hc
    exact ⟨_, _, ⟨rfl, rfl, rfl, rfl⟩, .numbering hc⟩

theorem cleanedUp_went {row : EventRow} {n : ℕ} {cause : Cause} :
    ∃ stage op, Went s (s.cleanedUp i t row n cause) i t stage op ∧
      Follows s t.call (.writing row n (.cleaning cause)) r stage op := by
  unfold Store.cleanedUp
  split
  · rename_i d hc
    split
    · rename_i key hk
      exact ⟨_, _, ⟨rfl, rfl, rfl, rfl⟩, .recheck hc hk⟩
    · exact ⟨_, _, ⟨rfl, rfl, rfl, rfl⟩, .raised⟩
  · split_ifs
    · exact ⟨_, _, ⟨rfl, rfl, rfl, rfl⟩, .retry⟩
    · exact ⟨_, _, ⟨rfl, rfl, rfl, rfl⟩, .raised⟩
  · rename_i hc
    exact ⟨_, _, ⟨rfl, rfl, rfl, rfl⟩, .reread hc⟩
  · rename_i hc
    exact ⟨_, _, ⟨rfl, rfl, rfl, rfl⟩, .reread hc⟩
  · exact ⟨_, _, ⟨rfl, rfl, rfl, rfl⟩, .raised⟩

/-- The caches do not matter. -/
theorem Went.of_same {s' : Store} {stage : Stage} {op : Option SqlOp} (h : Went s' u i t stage op)
    (hdb : s'.db = s.db) (htasks : s'.tasks = s.tasks) (hqueue : s'.queue = s.queue)
    (hholder : s'.holder = s.holder) : Went s u i t stage op where
  db := h.db.trans hdb
  tasks := by
    rw [h.tasks]
    simp only [Store.go, htasks]
  queue := by
    rw [h.queue]
    simp only [Store.go, hqueue]
  holder := by
    rw [h.holder]
    simp only [Store.go, hholder]

theorem committedTxn_went {row : EventRow} {n : ℕ} :
    ∃ stage op, Went s (s.committedTxn i t row) i t stage op ∧
      Follows s t.call (.writing row n .committing) .done stage op := by
  unfold Store.committedTxn
  split
  · rename_i c p w _
    rcases publish_went (s := s.cacheClaim c w) (i := i) (t := t) row 0 with h | h
    · exact ⟨_, _, h.of_same rfl rfl rfl rfl, .publish⟩
    · exact ⟨_, _, h.of_same rfl rfl rfl rfl, .finish rfl⟩
  · rcases publish_went (s := s) (i := i) (t := t) row 0 with h | h
    · exact ⟨_, _, h, .publish⟩
    · exact ⟨_, _, h, .finish rfl⟩

theorem written_went {row : EventRow} {n : ℕ} {pc : TxnPc} :
    ∃ stage op, Went s (s.written i t row n pc r) i t stage op ∧
      Follows s t.call (.writing row n pc) r stage op := by
  unfold Store.written
  split
  · exact enterBody_went
  · exact ⟨_, _, ⟨rfl, rfl, rfl, rfl⟩, .orphan⟩
  · exact ⟨_, _, ⟨rfl, rfl, rfl, rfl⟩, .recovered⟩
  · exact ⟨_, _, ⟨rfl, rfl, rfl, rfl⟩, .fetch rfl⟩
  · exact ⟨_, _, ⟨rfl, rfl, rfl, rfl⟩, .numbered⟩
  · exact ⟨_, _, ⟨rfl, rfl, rfl, rfl⟩, .claimed⟩
  · exact ⟨_, _, ⟨rfl, rfl, rfl, rfl⟩, .cleanUp rfl⟩
  · exact ⟨_, _, ⟨rfl, rfl, rfl, rfl⟩, .cleanUp rfl⟩
  · exact ⟨_, _, ⟨rfl, rfl, rfl, rfl⟩, .cleanUp rfl⟩
  · exact ⟨_, _, ⟨rfl, rfl, rfl, rfl⟩, .inserted⟩
  · exact committedTxn_went
  · exact cleanedUp_went
  · exact ⟨_, _, ⟨rfl, rfl, rfl, rfl⟩, .fetch rfl⟩
  · exact ⟨_, _, ⟨rfl, rfl, rfl, rfl⟩, .found⟩
  · exact ⟨_, _, ⟨rfl, rfl, rfl, rfl⟩, .raised⟩
  · refine ⟨_, _, ⟨rfl, rfl, rfl, rfl⟩, .cleanUp ?_⟩
    cases pc <;> first | rfl | simp_all

/-- **What a resuming call can do.** -/
theorem advance_went (h : s.advance i t r = some u) :
    ∃ stage op, Went s u i t stage op ∧ Follows s t.call t.stage r stage op := by
  unfold Store.advance at h
  split at h
  · rename_i hst
    rw [hst, ← Option.some.inj h]
    exact checked_went
  · rename_i hst
    rw [hst, ← Option.some.inj h]
    exact written_went
  · rename_i hst
    rw [hst, ← Option.some.inj h]
    exact reread_went
  · exact absurd h (by simp)

end Resuming

/-! ### The queue and the lock -/

/-- A waiting call has its statement in the queue; writes are those of the holder of the lock or
stand in front of its statement. -/
structure Orderly (s : Store) : Prop where
  locked : ∀ i, s.holder = some i ↔ ∃ t, s.tasks[i]? = some t ∧ t.stage.inside
  fresh : ∀ i, s.tasks[i]? = none → owned i s.queue = []
  expects : ∀ (i : ℕ) (t : StoreTask), s.tasks[i]? = some t → t.Expects (owned i s.queue)
  trailing : ∀ i, s.holder = some i → Trailing SqlOp.isWrite i s.queue

namespace Goes
variable {s u : Store} {i : ℕ} {call : StoreCall} {stage : Stage} {op : Option SqlOp}

/-- The other calls keep what they have in the queue. -/
theorem owned_other (h : Goes s u i call stage op) {j : ℕ} (hj : j ≠ i) :
    owned j u.queue = owned j s.queue := by
  obtain ⟨q, hq, _, hu⟩ := h.queue
  have hown : owned j q = owned j s.queue := by
    rcases hq with rfl | rfl
    · rfl
    · exact owned_disown hj _
  rw [hu, owned_append, hown]
  cases op with
  | none => simp
  | some o => simp [owned_cons, Ne.symm hj]

theorem owned_self (h : Goes s u i call stage op) : owned i u.queue = op.toList := by
  obtain ⟨q, _, hown, hu⟩ := h.queue
  rw [hu, owned_append, hown]
  cases op with
  | none => simp
  | some o => simp [owned_cons]

/-- A statement in the queue was there or is the new one. -/
theorem mem_queue (h : Goes s u i call stage op) {e : Ticket SqlOp} (he : e ∈ u.queue) :
    (∃ e' ∈ s.queue, e'.op = e.op) ∨ op = some e.op := by
  obtain ⟨q, hq, _, hu⟩ := h.queue
  rw [hu] at he
  rcases List.mem_append.mp he with he | he
  · left
    rcases hq with rfl | rfl
    · exact ⟨e, he, rfl⟩
    · exact mem_disown he
  · right
    cases op with
    | none => simp at he
    | some o =>
        simp only [Option.toList_some, List.map_cons, List.map_nil, List.mem_singleton] at he
        rw [he]

/-- A call outside the lock queues a read. -/
theorem isWrite_op (h : Goes s u i call stage op) (hs : stage.inside = false) {o : SqlOp}
    (ho : op = some o) : o.isWrite = false := by
  have ha := h.awaits
  rw [ho] at ha
  exact Awaits.isWrite ha hs

theorem holder_other (h : Goes s u i call stage op) {j : ℕ} (hj : j ≠ i) :
    u.holder = some j ↔ s.holder = some j ∧ stage.inside = false := by
  rw [h.holder]
  cases hs : stage.inside with
  | true =>
      simp only [if_true, Option.some.injEq, Ne.symm hj, Bool.true_eq_false, and_false]
  | false =>
      simp only [Bool.false_eq_true, if_false, and_true]
      split_ifs with hh
      · rw [hh]
        simp [Ne.symm hj]
      · rfl

theorem holder_self (h : Goes s u i call stage op) : u.holder = some i ↔ stage.inside := by
  rw [h.holder]
  split_ifs with h1 h2
  · simp [h1]
  · simp [h1]
  · simp [h1, h2]

/-- Nothing another holder of the lock relies on is disturbed. -/
theorem trailing_other (h : Goes s u i call stage op) {j : ℕ} (hj : j ≠ i)
    (hs : stage.inside = false) (ht : Trailing SqlOp.isWrite j s.queue) :
    Trailing SqlOp.isWrite j u.queue := by
  obtain ⟨q, hq, _, hu⟩ := h.queue
  have hq' : Trailing SqlOp.isWrite j q := by
    rcases hq with rfl | rfl
    · exact ht
    · exact ht.disown hj
  rw [hu]
  cases ho : op with
  | none => simpa using hq'
  | some o => exact hq'.append_other (h.isWrite_op hs ho) (by simp [Ne.symm hj])

theorem quiet_other (h : Goes s u i call stage op) {j : ℕ} (hj : j ≠ i)
    (hs : stage.inside = false) (ht : Quiet SqlOp.isWrite j s.queue) :
    Quiet SqlOp.isWrite j u.queue := by
  obtain ⟨q, hq, _, hu⟩ := h.queue
  have hq' : Quiet SqlOp.isWrite j q := by
    rcases hq with rfl | rfl
    · exact ht
    · exact ht.disown hj
  rw [hu]
  cases ho : op with
  | none => simpa using hq'
  | some o => exact hq'.append_other (h.isWrite_op hs ho)

theorem trailing_self (h : Goes s u i call stage op) (hs : stage.inside) :
    Trailing SqlOp.isWrite i u.queue := by
  obtain ⟨q, _, _, hu⟩ := h.queue
  have ha := h.awaits
  cases ho : op with
  | none =>
      rw [ho] at ha
      unfold Stage.waits at ha
      unfold Stage.inside at hs
      split at hs <;> simp_all
  | some o =>
      rw [hu, ho]
      exact trailing_append_own i o q

/-- A move of a call keeps the queue and the lock in order. -/
theorem orderly (h : Goes s u i call stage op) (hs : Orderly s) : Orderly u where
  locked j := by
    by_cases hj : j = i
    · rw [hj, h.holder_self, h.self]
      simp
    · rw [h.holder_other hj, h.other j hj, ← hs.locked j]
      refine ⟨fun hh => hh.1, fun hh => ⟨hh, ?_⟩⟩
      by_contra hin
      rcases h.entry (by simpa using hin) with he | he
      · rw [he] at hh
        exact hj (Option.some.inj hh).symm
      · rw [he] at hh
        exact absurd hh (by simp)
  fresh j hn := by
    by_cases hj : j = i
    · rw [hj, h.self] at hn
      exact absurd hn (by simp)
    · rw [h.owned_other hj]
      exact hs.fresh j (by rw [← h.other j hj]; exact hn)
  expects j t ht := by
    by_cases hj : j = i
    · rw [hj, h.self, Option.some.injEq] at ht
      rw [hj, h.owned_self, ← ht]
      have ha := h.awaits
      cases ho : op with
      | none =>
          rw [ho] at ha
          exact .inl ⟨rfl, .inr ha⟩
      | some o =>
          rw [ho] at ha
          exact .inr ⟨rfl, o, rfl, ha⟩
    · rw [h.owned_other hj]
      exact hs.expects j t (by rw [← h.other j hj]; exact ht)
  trailing j hh := by
    by_cases hj : j = i
    · rw [hj] at hh ⊢
      exact h.trailing_self (h.holder_self.mp hh)
    · obtain ⟨h1, h2⟩ := (h.holder_other hj).mp hh
      exact h.trailing_other hj h2 (hs.trailing j h1)

end Goes

/-! ### The worker's move -/

section Serving
variable {s : Store} {e : Ticket SqlOp} {rest : List (Ticket SqlOp)} {f : Fault}

@[simp] theorem serve_db : (s.serve e rest f).db = (s.db.execWith e.op f).1 := by
  unfold Store.serve Store.deliver
  split <;> rfl

@[simp] theorem serve_queue : (s.serve e rest f).queue = rest := by
  unfold Store.serve Store.deliver
  split <;> rfl

@[simp] theorem serve_holder : (s.serve e rest f).holder = s.holder := by
  unfold Store.serve Store.deliver
  split <;> rfl

/-- The owner of the statement gets the result. -/
theorem serve_task_owner {i : ℕ} (h : e.owner = some i) : (s.serve e rest f).tasks[i]? =
    s.tasks[i]?.map fun t => { t with mail := some (s.db.execWith e.op f).2 } := by
  simp [Store.serve, Store.deliver, h, List.getElem?_modify_eq]

theorem serve_task_other {i : ℕ} (h : e.owner ≠ some i) :
    (s.serve e rest f).tasks[i]? = s.tasks[i]? := by
  unfold Store.serve Store.deliver
  split
  · rfl
  · rename_i j hj
    have hne : j ≠ i := by
      rintro rfl
      exact h hj
    exact List.getElem?_modify_ne _ _ hne

/-- The tasks of the new state are those of the old one, with mail for the owner. -/
theorem serve_task {i : ℕ} {t : StoreTask} (h : (s.serve e rest f).tasks[i]? = some t) :
    (e.owner = some i ∧ ∃ t₀, s.tasks[i]? = some t₀ ∧
      t = { t₀ with mail := some (s.db.execWith e.op f).2 }) ∨
    (e.owner ≠ some i ∧ s.tasks[i]? = some t) := by
  by_cases ho : e.owner = some i
  · rw [serve_task_owner ho, Option.map_eq_some_iff] at h
    obtain ⟨t₀, h0, rfl⟩ := h
    exact .inl ⟨ho, t₀, h0, rfl⟩
  · rw [serve_task_other ho] at h
    exact .inr ⟨ho, h⟩

theorem owned_rest_owner {i : ℕ} (hq : s.queue = e :: rest) (h : e.owner = some i) :
    owned i s.queue = e.op :: owned i rest := by
  rw [hq, owned_cons, if_pos h]

theorem owned_rest_other {i : ℕ} (hq : s.queue = e :: rest) (h : e.owner ≠ some i) :
    owned i rest = owned i s.queue := by
  rw [hq, owned_cons, if_neg h]

/-- The worker keeps the queue and the lock in order. -/
theorem Orderly.serve (hs : Orderly s) (hq : s.queue = e :: rest) (f : Fault) :
    Orderly (s.serve e rest f) where
  locked i := by
    rw [serve_holder, hs.locked i]
    by_cases ho : e.owner = some i
    · rw [serve_task_owner ho]
      cases s.tasks[i]? <;> simp
    · rw [serve_task_other ho]
  fresh i hn := by
    rw [serve_queue]
    by_cases ho : e.owner = some i
    · rw [serve_task_owner ho, Option.map_eq_none_iff] at hn
      have := hs.fresh i hn
      rw [owned_rest_owner hq ho] at this
      exact absurd this (by simp)
    · rw [serve_task_other ho] at hn
      rw [owned_rest_other hq ho]
      exact hs.fresh i hn
  expects i t ht := by
    rw [serve_queue]
    rcases serve_task ht with ⟨ho, t₀, h0, rfl⟩ | ⟨ho, h0⟩
    · have he := hs.expects i t₀ h0
      rw [owned_rest_owner hq ho] at he
      exact .inl ⟨he.awaits.2.1, .inl rfl⟩
    · rw [owned_rest_other hq ho]
      exact hs.expects i t h0
  trailing i hh := by
    rw [serve_holder] at hh
    rw [serve_queue]
    have := hs.trailing i hh
    rw [hq] at this
    exact this.2

end Serving

/-! ### Every move -/

/-- How a call comes to a stage with a statement. -/
inductive Origin (s : Store) (i : ℕ) (call : StoreCall) : Stage → Option SqlOp → Prop
  | looksUp {d : EventDraft} {key : String} : s.tasks[i]? = none → call = .append d →
      d.idempotencyKey = some key →
      Origin s i call .checking (some (.select (.byKey d.runId d.eventType key)))
  | keyless {d : EventDraft} : s.tasks[i]? = none → call = .append d →
      Origin s i call (.queued (s.rowFor d)) none
  | claims {c : ClaimRow} {p : Obj} {w : Option String} : s.tasks[i]? = none → call = .claim c p w →
      Origin s i call .checking
        (some (.select (.byRequest c.tenantId c.conversationId c.clientRequestId)))
  | reads {q : Query} : s.tasks[i]? = none → call = .read q →
      Origin s i call .checking (some (.select q))
  | resumes {t : StoreTask} {r : SqlResult} {stage : Stage} {op : Option SqlOp} :
      s.tasks[i]? = some t → t.call = call → t.mail = some r → Follows s call t.stage r stage op →
      Origin s i call stage op
  | acquires {t : StoreTask} {row : EventRow} : s.tasks[i]? = some t → t.call = call →
      t.stage = .queued row → Origin s i call (.writing row 0 (.beginning false)) (some .begin)
  | publishes {t : StoreTask} {row : EventRow} {k : ℕ} : s.tasks[i]? = some t → t.call = call →
      t.stage = .publishing row k → Origin s i call (.publishing row (k + 1)) none
  | finishes {t : StoreTask} {row : EventRow} {k : ℕ} {stage : Stage} : s.tasks[i]? = some t →
      t.call = call → t.stage = .publishing row k → stage = Store.finalStage call row →
      Origin s i call stage none
  | raises {t : StoreTask} : s.tasks[i]? = some t → t.call = call → Origin s i call .raised none
  | cleansUp {t : StoreTask} {row : EventRow} {n : ℕ} {pc : TxnPc} : s.tasks[i]? = some t →
      t.call = call → t.stage = .writing row n pc →
      Origin s i call (.writing row n (.cleaning .error)) (some .rollback)

section Moves
variable {s u : Store} {i : ℕ} {t : StoreTask}

/-- A call that goes on from a queue in which it has nothing. -/
theorem Went.goes {stage : Stage} {op : Option SqlOp} {q : List (Ticket SqlOp)}
    (h : Went { s with queue := q } u i t stage op) (hs : Orderly s) (ht : s.tasks[i]? = some t)
    (hq : q = s.queue ∨ q = disown i s.queue) (hown : owned i q = [])
    (hin : stage.inside → t.stage.inside) (ha : op.elim (stage.waits = false) (Awaits t.call stage)) :
    Goes s u i t.call stage op where
  db := h.db
  self := by
    have hlt : i < s.tasks.length := (List.getElem?_eq_some_iff.mp ht).1
    rw [h.tasks]
    simp [Store.go, hlt]
  other j hj := by
    rw [h.tasks]
    simp [Store.go, List.getElem?_set_ne (Ne.symm hj)]
  queue := ⟨q, hq, hown, h.queue⟩
  holder := by
    have hl := hs.locked i
    rw [h.holder]
    simp only [Store.go]
    cases hst : stage.inside with
    | true =>
        have : s.holder = some i := hl.mpr ⟨t, ht, hin hst⟩
        simp [this]
    | false =>
        cases hst' : t.stage.inside with
        | true =>
            have : s.holder = some i := hl.mpr ⟨t, ht, hst'⟩
            simp [this]
        | false =>
            have : s.holder ≠ some i := by
              intro hh
              obtain ⟨t', ht', hi⟩ := hl.mp hh
              rw [ht, Option.some.injEq] at ht'
              rw [← ht', hst'] at hi
              exact absurd hi (by simp)
            simp [this]
  entry hi := .inl ((hs.locked i).mpr ⟨t, ht, hin hi⟩)
  awaits := ha

theorem resume_goes (hs : Orderly s) (h : storeStep s (.resume i) = some u) :
    ∃ call stage op, Goes s u i call stage op ∧ Origin s i call stage op := by
  simp only [storeStep, Option.bind_eq_some_iff] at h
  obtain ⟨t, ht, r, hr, h⟩ := h
  obtain ⟨stage, op, hw, hf⟩ := advance_went h
  have hown : owned i s.queue = [] := (hs.expects i t ht).nil (by simp [hr])
  exact ⟨t.call, stage, op, Went.goes hw hs ht (.inl rfl) hown hf.inside hf.awaits,
    .resumes ht rfl hr hf⟩

theorem called_goes (hs : Orderly s) (h : storeStep s (.called i) = some u) :
    ∃ call stage op, Goes s u i call stage op ∧ Origin s i call stage op := by
  simp only [storeStep, Option.bind_eq_some_iff] at h
  obtain ⟨t, ht, h⟩ := h
  split at h
  · rename_i row k hst
    have hown : owned i s.queue = [] := (hs.expects i t ht).nil_of_waits (by rw [hst]; rfl)
    rw [← Option.some.inj h]
    rcases publish_went (s := s) (i := i) (t := t) row (k + 1) with hw | hw
    · refine ⟨_, _, _, Went.goes hw hs ht (.inl rfl) hown ?_ rfl, .publishes ht rfl hst⟩
      simp [Stage.inside]
    · refine ⟨_, _, _, Went.goes hw hs ht (.inl rfl) hown ?_ (waits_finalStage _ _),
        .finishes ht rfl hst rfl⟩
      simp
  · exact absurd h (by simp)

theorem cancel_goes (hs : Orderly s) (h : storeStep s (.cancel i) = some u) :
    ∃ call stage op, Goes s u i call stage op ∧ Origin s i call stage op := by
  simp only [storeStep, Option.bind_eq_some_iff] at h
  obtain ⟨t, ht, h⟩ := h
  have hq : disown i s.queue = s.queue ∨ disown i s.queue = disown i s.queue := .inr rfl
  have raise : ∃ call stage op, Goes s (({ s with queue := disown i s.queue } : Store).leave i t
      .raised) i call stage op ∧ Origin s i call stage op :=
    ⟨_, _, _, Went.goes ⟨rfl, rfl, rfl, rfl⟩ hs ht hq (owned_disown_self i _)
      (by simp [Stage.inside]) rfl, .raises ht rfl⟩
  unfold Store.cancelTask at h
  split at h
  · exact Option.some.inj h ▸ raise
  · exact Option.some.inj h ▸ raise
  · exact Option.some.inj h ▸ raise
  · exact Option.some.inj h ▸ raise
  · exact Option.some.inj h ▸ raise
  · exact Option.some.inj h ▸ raise
  · rename_i row n pc hst
    rw [← Option.some.inj h]
    refine ⟨_, _, _, Went.goes ⟨rfl, rfl, rfl, rfl⟩ hs ht hq (owned_disown_self i _) ?_ rfl,
      .cleansUp ht rfl hst⟩
    intro _
    rw [hst]
    rfl
  · exact absurd h (by simp)

theorem acquire_goes (hs : Orderly s) (h : storeStep s (.acquire i) = some u) :
    ∃ call stage op, Goes s u i call stage op ∧ Origin s i call stage op := by
  simp only [storeStep, Option.bind_eq_some_iff] at h
  obtain ⟨t, ht, h⟩ := h
  split at h
  · rename_i row hst hh
    have hown : owned i s.queue = [] := (hs.expects i t ht).nil_of_waits (by rw [hst]; rfl)
    have hlt : i < s.tasks.length := (List.getElem?_eq_some_iff.mp ht).1
    rw [← Option.some.inj h]
    refine ⟨t.call, .writing row 0 (.beginning false), some .begin,
      ⟨rfl, ?_, ?_, ⟨_, .inl rfl, hown, rfl⟩, rfl, fun _ => .inr hh, rfl⟩, .acquires ht rfl hst⟩
    · simp [Store.go, hlt]
    · intro j hj
      simp [Store.go, List.getElem?_set_ne (Ne.symm hj)]
  · exact absurd h (by simp)

/-- A call that is new starts with a read or with the wait for the lock. -/
theorem begin_goes (hs : Orderly s) (call : StoreCall) :
    ∃ stage op, Goes s (s.begin call) s.tasks.length call stage op ∧
      Origin s s.tasks.length call stage op := by
  have hnone : s.tasks[s.tasks.length]? = none := by simp
  have hown : owned s.tasks.length s.queue = [] := hs.fresh _ hnone
  have hne : s.holder ≠ some s.tasks.length := by
    intro hh
    obtain ⟨t, ht, _⟩ := (hs.locked _).mp hh
    rw [hnone] at ht
    exact absurd ht (by simp)
  -- Every branch puts the new task at the end of the list and sets its stage.
  have key : ∀ (u : Store) (stage : Stage) (op : Option SqlOp), u.db = s.db → stage.inside = false →
      u.tasks = (s.tasks ++ [(⟨call, .checking, none⟩ : StoreTask)]).set s.tasks.length
        ⟨call, stage, none⟩ →
      u.queue = s.queue ++ op.toList.map (Ticket.mk (some s.tasks.length)) →
      u.holder = s.holder → op.elim (stage.waits = false) (Awaits call stage) →
      Goes s u s.tasks.length call stage op := by
    intro u stage op h1 hin h2 h3 h4 ha
    refine ⟨h1, ?_, ?_, ⟨_, .inl rfl, hown, h3⟩, ?_, ?_, ha⟩
    · rw [h2]
      simp
    · intro j hj
      rw [h2, List.getElem?_set_ne (Ne.symm hj)]
      rcases Nat.lt_or_ge j s.tasks.length with hlt | hge
      · rw [List.getElem?_append_left hlt]
      · rw [List.getElem?_eq_none (by simp; omega), List.getElem?_eq_none hge]
    · rw [h4, hin]
      simp [hne]
    · rw [hin]
      simp
  unfold Store.begin
  split
  · rename_i d
    split
    · rename_i k hk
      exact ⟨_, _, key _ .checking _ rfl rfl rfl rfl rfl rfl, .looksUp hnone rfl hk⟩
    · exact ⟨_, none, key _ (.queued (s.rowFor d)) _ rfl rfl rfl rfl rfl rfl, .keyless hnone rfl⟩
  · exact ⟨_, _, key _ .checking _ rfl rfl rfl rfl rfl rfl, .claims hnone rfl⟩
  · exact ⟨_, _, key _ .checking _ rfl rfl rfl rfl rfl rfl, .reads hnone rfl⟩

/-- **What a move can do**: the worker executes the first statement, or a call goes on. -/
theorem storeStep_cases (hs : Orderly s) {m : StoreMove} (h : storeStep s m = some u) :
    (∃ f e rest, m = .execute f ∧ s.queue = e :: rest ∧ u = s.serve e rest f) ∨
      ∃ i call stage op, Goes s u i call stage op ∧ Origin s i call stage op := by
  cases m with
  | call c =>
      rw [← Option.some.inj h]
      obtain ⟨stage, op, hg, ho⟩ := begin_goes hs c
      exact .inr ⟨s.tasks.length, c, stage, op, hg, ho⟩
  | execute f =>
      simp only [storeStep] at h
      split at h
      · exact absurd h (by simp)
      · rename_i e rest hq
        exact .inl ⟨f, e, rest, rfl, hq, (Option.some.inj h).symm⟩
  | resume i => exact .inr ⟨i, resume_goes hs h⟩
  | acquire i => exact .inr ⟨i, acquire_goes hs h⟩
  | called i => exact .inr ⟨i, called_goes hs h⟩
  | cancel i => exact .inr ⟨i, cancel_goes hs h⟩

end Moves

end JAgent
