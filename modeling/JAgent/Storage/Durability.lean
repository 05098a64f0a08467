import JAgent.Storage.Numbering

/-! # What the store reports is committed

An event that `append_event` returns and a run that `claim_client_request` returns should be in the
database for good.  The look-ups of both calls are made on the connection of the writers and without
the lock: they also find rows of a transaction that is still open.  When that transaction is rolled
back, a row has been reported that never was stored (`rolled_back_row_is_returned`).

This is the only way to report such a row (`reported_rows_are_durable`), provided that the
transaction of a writer is not lost under it: a statement of another call that fails and rolls back
ends the transaction of the writer, whose COMMIT then succeeds with nothing to commit. -/

namespace JAgent
open Lib

/-! ### Reports -/

/-- What a call has reported is in the tables: the row of `append_event`, and the claim of the
request with its run, which is there with its first event if the call has created it. -/
def Stage.Durable (call : StoreCall) (t : Tables) : Stage → Prop
  | .returned row => row ∈ t.events
  | .claimed runId created => ∀ c p w, call = .claim c p w →
      (∃ c' ∈ t.claims, c'.isFor c.tenantId c.conversationId c.clientRequestId ∧ c'.runId = runId) ∧
        (created = true → c.runStarted p w ∈ t.events ∧ c.runId = runId)
  | _ => True

/-- A read that is not part of a write. -/
def StoreCall.isRead : StoreCall → Bool
  | .read _ => true
  | _ => false

/-- The statement is a look-up of `append_event` or `claim_client_request`. -/
def Store.isLookUp (s : Store) (owner : Option ℕ) : Bool :=
  owner.any fun i => s.tasks[i]?.any fun t => !t.call.isRead

/-- A failing read does not roll back the transaction of another call. -/
def Store.keepsTxn (s : Store) (owner : Option ℕ) (f : Fault) : Bool :=
  f ≠ .rollback || s.db.working.isNone || s.holder.all fun i => owner = some i

/-- The worker's next statement, when it is a look-up, finds in the open transaction what it finds
in the committed tables, and a read does not end the transaction of another call. -/
def readsCommitted (s : Store) : StoreMove → Bool
  | .execute f => match s.queue with
      | ⟨owner, .select q⟩ :: _ =>
          (!s.isLookUp owner || q.answer s.db.view = q.answer s.db.committed) && s.keepsTxn owner f
      | ⟨owner, .fetch _⟩ :: _ => s.keepsTxn owner f
      | _ => true
  | _ => true

/-! ### A row that is rolled back -/

/-- A step event of run "r" with a key. -/
def keyedDraft : EventDraft :=
  { runId := "r", eventType := .step, payload := [], idempotencyKey := some "k" }

/-- The row the first append of `keyedDraft` inserts. -/
def keyedRow : EventRow :=
  { runId := "r", seq := 1, eventType := .step, payload := [], idempotencyKey := some "k" }

/-- The look-up of a keyed append, up to its answer. -/
def lookUpMoves (i : ℕ) : List StoreMove :=
  [.call (.append keyedDraft), .execute .none, .resume i, .execute .none, .resume i]

/-- An append finds the row of another one that is then cancelled before its COMMIT. -/
def rolledBackRow : List StoreMove :=
  lookUpMoves 0 ++ [StoreMove.acquire 0, .execute .none, .resume 0, .execute .none, .resume 0,
    .execute .none, .resume 0, .execute .none] ++ lookUpMoves 1 ++
  [StoreMove.cancel 0, .execute .none, .resume 0]

/-- The second append has returned a row; nothing is stored and nothing is left to do. -/
theorem rolled_back_row_is_returned : ∃ s, Reaches storeStep {} s ∧
    (∃ row, s.tasks[1]? = some { call := .append keyedDraft, stage := .returned row } ∧
      row ∉ s.db.committed.events) ∧
    s.db.working = none ∧ s.queue = [] := by
  obtain ⟨s, hs, hp⟩ := exists_reaches_of_run storeStep rolledBackRow {}
    (fun s => s.tasks[1]? = some { call := .append keyedDraft, stage := .returned keyedRow } &&
      s.db.committed.events = [] && s.db.working = none && s.queue = []) (by rfl)
  simp only [Bool.and_eq_true, decide_eq_true_eq] at hp
  obtain ⟨⟨⟨h1, h2⟩, h3⟩, h4⟩ := hp
  exact ⟨s, hs, ⟨keyedRow, h1, by simp [h2]⟩, h3, h4⟩

/-! ### What a call relies on -/

/-- The claim of the call, if it makes one, is in the tables. -/
def StoreCall.Claims (call : StoreCall) (t : Tables) : Prop :=
  ∀ c p w, call = .claim c p w → c ∈ t.claims

/-- What the call writes is in the tables. -/
def Tables.Holds (t : Tables) (call : StoreCall) (row : EventRow) : Prop :=
  call.Claims t ∧ row ∈ t.events

/-- The rows of an answer are in the tables, and a claim is of the request of the call. -/
def SqlAnswer.Backed (call : StoreCall) (t : Tables) : SqlAnswer → Prop
  | .event (some row) => row ∈ t.events
  | .claim (some c') => c' ∈ t.claims ∧ ∀ c p w, call = .claim c p w →
      c'.isFor c.tenantId c.conversationId c.clientRequestId
  | _ => True

/-- Only writes get past their first look-up; the row of a claim is its RunStarted event. -/
def Stage.Makes (call : StoreCall) : Stage → Prop
  | .queued row | .writing row _ _ | .publishing row _ =>
      call.isRead = false ∧ ∀ c p w, call = .claim c p w → row = c.runStarted p w
  | .rereading => call.isRead = false
  | _ => True

/-- How far the rows of a call have come. -/
def StoreTask.Writes (t : StoreTask) (db : Db) : Prop :=
  match t.stage, t.mail with
  | .writing _ _ .claiming, some .done => t.call.Claims db.view
  | .writing _ _ .inserting, none => t.call.Claims db.view
  | .writing row _ .inserting, some .done => db.view.Holds t.call row
  | .writing row _ .committing, none => db.view.Holds t.call row
  | .writing row _ .committing, some .done => db.committed.Holds t.call row
  | .publishing row _, _ => db.committed.Holds t.call row
  | stage, _ => stage.Durable t.call db.committed

/-- What a call relies on. -/
structure StoreTask.Backed (t : StoreTask) (db : Db) (q : List (Ticket SqlOp)) (i : ℕ) : Prop where
  makes : t.stage.Makes t.call
  asks : ∀ c p w, t.call = .claim c p w → ∀ qu, .select qu ∈ owned i q →
    qu = .byRequest c.tenantId c.conversationId c.clientRequestId
  heard : t.call.isRead = false → ∀ a, t.Hears (owned i q) a → a.Backed t.call db.committed
  writes : t.Writes db

section Growing
variable {call : StoreCall} {t t' : Tables}

theorem Tables.Holds.mono {row : EventRow} (h : t.Holds call row) (hw : t.Within t') :
    t'.Holds call row :=
  ⟨fun c p w hc => hw.2.subset (h.1 c p w hc), hw.1.subset h.2⟩

theorem SqlAnswer.Backed.mono {a : SqlAnswer} (h : a.Backed call t) (hw : t.Within t') :
    a.Backed call t' := by
  unfold SqlAnswer.Backed at h ⊢
  split at h
  · exact hw.1.subset h
  · exact ⟨hw.2.subset h.1, h.2⟩
  · exact trivial

/-- What is reported stays reported rightly. -/
theorem Stage.Durable.mono {stage : Stage} (h : stage.Durable call t) (hw : t.Within t') :
    stage.Durable call t' := by
  cases stage with
  | returned row => exact hw.1.subset h
  | claimed runId created =>
      intro c p w hc
      obtain ⟨⟨c', hc', hfor⟩, hrow⟩ := h c p w hc
      exact ⟨⟨c', hw.2.subset hc', hfor⟩, fun hcr => ⟨hw.1.subset (hrow hcr).1, (hrow hcr).2⟩⟩
  | _ => exact trivial

theorem StoreTask.Writes.mono {t : StoreTask} {db db' : Db} (h : t.Writes db)
    (hw : db.committed.Within db'.committed) (hv : t.inTxn → db'.view = db.view) : t.Writes db' := by
  unfold StoreTask.Writes at h ⊢
  split at h
  · rename_i hst _
    rwa [hv (by simp [StoreTask.inTxn, hst])]
  · rename_i hst _
    rwa [hv (by simp [StoreTask.inTxn, hst])]
  · rename_i hst _
    rwa [hv (by simp [StoreTask.inTxn, hst])]
  · rename_i hst _
    rwa [hv (by simp [StoreTask.inTxn, hst])]
  · exact h.mono hw
  · exact h.mono hw
  · exact h.mono hw

theorem StoreTask.Writes.durable {t : StoreTask} {db : Db} (h : t.Writes db) :
    t.stage.Durable t.call db.committed := by
  cases hst : t.stage with
  | returned row =>
      simp only [StoreTask.Writes, hst] at h
      exact h
  | claimed runId created =>
      simp only [StoreTask.Writes, hst] at h
      exact h
  | _ => exact trivial

end Growing

/-- The answer of a look-up on the committed tables. -/
theorem Query.backed_answer {call : StoreCall} {q : Query} (t : Tables)
    (hq : ∀ c p w, call = .claim c p w →
      q = .byRequest c.tenantId c.conversationId c.clientRequestId) :
    (q.answer t).Backed call t := by
  cases q with
  | byKey runId eventType key =>
      simp only [Query.answer]
      cases hf : t.events.find? (·.hasKey runId eventType key) with
      | none => exact trivial
      | some row => exact List.mem_of_find?_eq_some hf
  | byRequest tenantId conversationId clientRequestId =>
      simp only [Query.answer]
      cases hf : t.claims.find? (·.isFor tenantId conversationId clientRequestId) with
      | none => exact trivial
      | some c' =>
          refine ⟨List.mem_of_find?_eq_some hf, ?_⟩
          intro c p w hc
          have := hq c p w hc
          simp only [Query.byRequest.injEq] at this
          rw [← this.1, ← this.2.1, ← this.2.2]
          have hfor := List.find?_some hf
          exact hfor
  | _ => exact trivial

namespace Db
variable {db : Db} {f : Fault}

theorem insertEvent_done {row : EventRow} (h : (db.execWith (.insertEvent row) f).2 = .done) :
    (db.execWith (.insertEvent row) f).1.view = db.view.addEvent row := by
  cases f with
  | none =>
      simp only [Db.execWith, Db.exec] at h ⊢
      split_ifs at h ⊢
      rfl
  | abort => exact absurd h (by simp [Db.execWith])
  | rollback => exact absurd h (by simp [Db.execWith])

theorem insertClaim_done {c : ClaimRow} (h : (db.execWith (.insertClaim c) f).2 = .done) :
    (db.execWith (.insertClaim c) f).1.view = db.view.addClaim c := by
  cases f with
  | none =>
      simp only [Db.execWith, Db.exec] at h ⊢
      split_ifs at h ⊢
      rfl
  | abort => exact absurd h (by simp [Db.execWith])
  | rollback => exact absurd h (by simp [Db.execWith])

theorem commit_done (h : (db.execWith .commit f).2 = .done) :
    (db.execWith .commit f).1.committed = db.view := by
  cases f with
  | none => rfl
  | abort => exact absurd h (by simp [Db.execWith])
  | rollback => exact absurd h (by simp [Db.execWith])

end Db

/-! ### The worker's moves -/

/-- What holds in every run whose look-ups find committed rows. -/
structure Reported (s : Store) : Prop where
  numbered : Numbered s
  backed : ∀ (i : ℕ) (t : StoreTask), s.tasks[i]? = some t → t.Backed s.db s.queue i

section Serving
variable {s : Store} {e : Ticket SqlOp} {rest : List (Ticket SqlOp)} {f : Fault}

/-- A read of another call leaves the transaction of the holder of the lock alone. -/
theorem execWith_eq_of_keepsTxn {i : ℕ} (hok : readsCommitted s (.execute f) = true)
    (hq : s.queue = e :: rest) (hop : e.op.isWrite = false) (hh : s.holder = some i)
    (ho : e.owner ≠ some i) : (s.db.execWith e.op f).1 = s.db := by
  have hkeep : s.keepsTxn e.owner f = true := by
    obtain ⟨owner, op⟩ := e
    simp only [readsCommitted, hq] at hok
    cases op <;> simp_all [SqlOp.isWrite]
  simp only [Store.keepsTxn, hh, Option.all_some, Bool.or_eq_true, decide_eq_true_eq,
    Option.isNone_iff_eq_none] at hkeep
  rcases hkeep with (hf | hnone) | heq
  · cases f with
    | none => cases hop' : e.op <;> simp_all [SqlOp.isWrite, Db.execWith, Db.exec]
    | abort => rfl
    | rollback => exact absurd rfl hf
  · rcases s.db.execWith_read hop f with hx | hx
    · exact hx
    · rw [hx, ← hnone]
  · exact absurd heq ho

/-- A look-up finds what is committed. -/
theorem answer_eq_of_readsCommitted {i : ℕ} {t : StoreTask} {q : Query}
    (hok : readsCommitted s (.execute f) = true) (hq : s.queue = e :: rest) (hop : e.op = .select q)
    (ho : e.owner = some i) (ht : s.tasks[i]? = some t) (hr : t.call.isRead = false) :
    q.answer s.db.view = q.answer s.db.committed := by
  obtain ⟨owner, op⟩ := e
  simp only at hop ho
  rw [hop, ho] at hq
  have hl : s.isLookUp (some i) = true := by simp [Store.isLookUp, ht, hr]
  simp only [readsCommitted, hq, hl, Bool.not_true, Bool.false_or, Bool.and_eq_true,
    decide_eq_true_eq] at hok
  exact hok.1

theorem Reported.serve_other (hs : Reported s) (hok : readsCommitted s (.execute f) = true)
    (hq : s.queue = e :: rest) {i : ℕ} {t : StoreTask} (ht : s.tasks[i]? = some t)
    (ho : e.owner ≠ some i) : t.Backed (s.db.execWith e.op f).1 rest i := by
  have h := hs.backed i t ht
  have hw := (hs.numbered.sound.execWith e.op f (hs.numbered.near_head hq)).2
  have hown := owned_rest_other hq ho
  refine ⟨h.makes, ?_, ?_, h.writes.mono hw ?_⟩
  · rw [hown]
    exact h.asks
  · intro hr a ha
    rw [hown] at ha
    exact (h.heard hr a ha).mono hw
  · intro hin
    have hh := (hs.numbered.orderly.locked i).mpr ⟨t, ht, StoreTask.inTxn.inside hin⟩
    have hop := hs.numbered.isWrite_head hq ht hin ho
    rw [execWith_eq_of_keepsTxn hok hq hop hh ho]

/-- The rows of a call after its own statement. -/
theorem Reported.writes_owner {t : StoreTask} {db : Db} {op : SqlOp} (h : t.Writes db)
    (hm : t.mail = none) (ha : Awaits t.call t.stage op) :
    { t with mail := some (db.execWith op f).2 : StoreTask}.Writes (db.execWith op f).1 := by
  unfold StoreTask.Writes
  split
  · rename_i hst hr
    simp only at hst hr
    rw [hst] at ha
    obtain ⟨c, p, w, hc, rfl⟩ := ha
    rw [Db.insertClaim_done (Option.some.inj hr)]
    intro c' p' w' hc'
    simp only [hc, StoreCall.claim.injEq] at hc'
    simp [Tables.addClaim, hc'.1]
  · rename_i hr
    exact absurd hr (by simp)
  · rename_i hst hr
    simp only at hst hr
    simp only [StoreTask.Writes, hst, hm] at h
    rw [hst] at ha
    simp only [Awaits] at ha
    subst ha
    rw [Db.insertEvent_done (Option.some.inj hr)]
    refine ⟨h, ?_⟩
    simp [Tables.addEvent]
  · rename_i hr
    exact absurd hr (by simp)
  · rename_i hst hr
    simp only at hst hr
    simp only [StoreTask.Writes, hst, hm] at h
    rw [hst] at ha
    simp only [Awaits] at ha
    subst ha
    rw [Db.commit_done (Option.some.inj hr)]
    exact h
  · rename_i hst
    simp only at hst
    rw [hst] at ha
    exact absurd ha (by simp [Awaits])
  · -- A stage that waits for a statement has reported nothing.
    simp only
    cases hst : t.stage with
    | returned row => rw [hst] at ha; exact absurd ha (by simp [Awaits])
    | claimed runId created => rw [hst] at ha; exact absurd ha (by simp [Awaits])
    | _ => exact trivial

theorem Reported.serve_owner (hs : Reported s) (hok : readsCommitted s (.execute f) = true)
    (hq : s.queue = e :: rest) {i : ℕ} {t : StoreTask} (ht : s.tasks[i]? = some t)
    (ho : e.owner = some i) :
    { t with mail := some (s.db.execWith e.op f).2 : StoreTask}.Backed (s.db.execWith e.op f).1
      rest i := by
  have h := hs.backed i t ht
  have hw := (hs.numbered.sound.execWith e.op f (hs.numbered.near_head hq)).2
  have hexp := hs.numbered.orderly.expects i t ht
  have hown := owned_rest_owner hq ho
  rw [hown] at hexp
  obtain ⟨hm, hnil, ha⟩ := hexp.awaits
  refine ⟨h.makes, ?_, ?_, Reported.writes_owner h.writes hm ha⟩
  · intro c p w _ qu hqu
    rw [hnil] at hqu
    exact absurd hqu List.not_mem_nil
  · intro hr a hh
    simp only at hr
    rcases hh with hh | hh | hh
    · obtain ⟨q, hop, hk⟩ := Db.eq_of_cursor (Option.some.inj hh)
      rw [hk, answer_eq_of_readsCommitted hok hq hop ho ht hr]
      apply SqlAnswer.Backed.mono _ hw
      apply Query.backed_answer
      intro c p w hc
      apply h.asks c p w hc
      rw [hown, hop]
      exact List.mem_cons_self
    · have hop := Db.eq_of_answer (Option.some.inj hh)
      apply (h.heard hr a (.inr (.inr _))).mono hw
      rw [hown, hop]
      exact List.mem_cons_self
    · rw [hnil] at hh
      exact absurd hh List.not_mem_nil

theorem Reported.serve (hs : Reported s) (hok : readsCommitted s (.execute f) = true)
    (hq : s.queue = e :: rest) : Reported (s.serve e rest f) where
  numbered := hs.numbered.serve hq f
  backed i t ht := by
    rw [serve_db, serve_queue]
    rcases serve_task ht with ⟨ho, t₀, h0, rfl⟩ | ⟨ho, h0⟩
    · exact hs.serve_owner hok hq h0 ho
    · exact hs.serve_other hok hq h0 ho

end Serving

/-! ### The moves of the calls -/

section Going
variable {s u : Store} {i : ℕ} {call : StoreCall} {stage : Stage} {op : Option SqlOp}

theorem Goes.backed_other (h : Goes s u i call stage op) {j : ℕ} (hj : j ≠ i) {t : StoreTask}
    (hb : t.Backed s.db s.queue j) : t.Backed u.db u.queue j := by
  rw [h.db]
  refine ⟨hb.makes, ?_, ?_, hb.writes⟩
  · rw [h.owned_other hj]
    exact hb.asks
  · rw [h.owned_other hj]
    exact hb.heard

/-- What is committed may be reported. -/
theorem durable_finalStage {t : Tables} {row : EventRow} (h : t.Holds call row)
    (hm : ∀ c p w, call = .claim c p w → row = c.runStarted p w) :
    (Store.finalStage call row).Durable call t := by
  cases call with
  | claim c p w =>
      intro c' p' w' hc
      obtain ⟨rfl, rfl, rfl⟩ := StoreCall.claim.inj hc
      have hrow := hm c p w rfl
      refine ⟨⟨c, h.1 c p w rfl, ?_, ?_⟩, fun _ => ⟨hrow ▸ h.2, ?_⟩⟩
      · simp [ClaimRow.isFor]
      · rw [hrow]
        rfl
      · rw [hrow]
        rfl
  | _ => exact h.2

theorem makes_finalStage (row : EventRow) : (Store.finalStage call row).Makes call := by
  cases call <;> exact trivial

theorem Follows.makes {st : Stage} {r : SqlResult} (hf : Follows s call st r stage op)
    (hfit : st.Fits call) (h : st.Makes call) : stage.Makes call := by
  cases hf with
  | fetch _ => exact h
  | finish hst => exact hst ▸ makes_finalStage _
  | miss hc =>
      rw [hc]
      exact ⟨rfl, by simp⟩
  | free hc =>
      rw [hc]
      refine ⟨rfl, fun c p w hc' => ?_⟩
      obtain ⟨rfl, rfl, rfl⟩ := StoreCall.claim.inj hc'
      rfl
  | numbered =>
      refine ⟨h.1, fun c p w hc => ?_⟩
      have := hfit.2.2 rfl
      rw [hc] at this
      exact absurd this (by simp [StoreCall.isClaim])
  | claiming _ | numbering _ | orphan | recovered | claimed | inserted | cleanUp _ | publish | retry
  | recheck _ _ => exact h
  | reread _ => exact h.1
  | _ => exact trivial

theorem Origin.makes (ho : Origin s i call stage op) (hs : Reported s) : stage.Makes call := by
  cases ho with
  | resumes ht hc _ hf =>
      have h := (hs.backed i _ ht).makes
      have hfit := (hs.numbered.numbers i _ ht).fits
      rw [hc] at h hfit
      exact hf.makes hfit h
  | keyless _ hc =>
      rw [hc]
      exact ⟨rfl, by simp⟩
  | acquires ht hc hst | cleansUp ht hc hst | publishes ht hc hst =>
      have h := (hs.backed i _ ht).makes
      rw [hc, hst] at h
      exact h
  | finishes _ _ _ hst => exact hst ▸ makes_finalStage _
  | _ => exact trivial

/-- `claim_client_request` looks up its own request only. -/
theorem Origin.asks {c : ClaimRow} {p : Obj} {w : Option String} {q : Query}
    (ho : Origin s i (.claim c p w) stage (some (.select q))) :
    q = .byRequest c.tenantId c.conversationId c.clientRequestId := by
  cases ho with
  | claims _ hc =>
      obtain ⟨rfl, rfl, rfl⟩ := StoreCall.claim.inj hc
      rfl
  | @resumes t r _ _ _ _ _ hf =>
      generalize t.stage = st at hf
      cases hf with
      | reread hc =>
          obtain ⟨rfl, rfl, rfl⟩ := StoreCall.claim.inj hc
          rfl
      | numbering hc => exact absurd rfl (hc c p w)
      | recheck hc _ => exact absurd hc (by simp)
  | looksUp _ hc _ | reads _ hc => exact absurd hc (by simp)

/-- What is fetched has been found. -/
theorem Origin.hears {a : SqlAnswer} (ho : Origin s i call stage (some (.fetch a))) :
    ∃ t, s.tasks[i]? = some t ∧ t.call = call ∧ t.mail = some (.cursor a) := by
  cases ho with
  | @resumes t r _ _ ht hc hm hf =>
      generalize t.stage = st at hf
      cases hf with
      | fetch _ => exact ⟨t, ht, hc, hm⟩

theorem writes_finalStage {db : Db} {row : EventRow} (h : db.committed.Holds call row)
    (hm : ∀ c p w, call = .claim c p w → row = c.runStarted p w) :
    (⟨call, Store.finalStage call row, none⟩ : StoreTask).Writes db := by
  have hd := durable_finalStage h hm
  cases call <;> exact hd

/-- How far the rows of a resuming call have come. -/
theorem Follows.writes {st : Stage} {r : SqlResult} {q : List (Ticket SqlOp)}
    (hf : Follows s call st r stage op) (hfit : st.Fits call)
    (hb : (⟨call, st, some r⟩ : StoreTask).Backed s.db q i) :
    (⟨call, stage, none⟩ : StoreTask).Writes s.db := by
  have hw := hb.writes
  have hm := hb.makes
  cases hf with
  | @fetch st a hr =>
      unfold Stage.reads at hr
      split at hr
      · exact trivial
      · exact trivial
      · exact trivial
      · exact trivial
      · exact absurd hr (by simp)
  | @hit d row hc => exact hb.heard (by rw [hc]; rfl) (.event (some row)) (.inr (.inl rfl))
  | @found _ row' _ => exact hb.heard hm.1 (.event (some row')) (.inr (.inl rfl))
  | @taken c c' p w hc =>
      obtain ⟨h1, h2⟩ := hb.heard (by rw [hc]; rfl) (.claim (some c')) (.inr (.inl rfl))
      exact fun c p w hc => ⟨⟨c', h1, h2 c p w hc, rfl⟩, by simp⟩
  | @lost c' =>
      obtain ⟨h1, h2⟩ := hb.heard hm (.claim (some c')) (.inr (.inl rfl))
      exact fun c p w hc => ⟨⟨c', h1, h2 c p w hc, rfl⟩, by simp⟩
  | numbered =>
      intro c p w hc
      have := hfit.2.2 rfl
      rw [show call = .claim c p w from hc] at this
      exact absurd this (by simp [StoreCall.isClaim])
  | claimed | inserted | publish => exact hw
  | finish hst =>
      rw [hst]
      exact writes_finalStage hw hm.2
  | _ => exact trivial

theorem Origin.writes (ho : Origin s i call stage op) (hs : Reported s) :
    (⟨call, stage, none⟩ : StoreTask).Writes s.db := by
  cases ho with
  | @resumes t r _ _ ht hc hm hf =>
      have hb := hs.backed i t ht
      have hfit := (hs.numbered.numbers i t ht).fits
      obtain ⟨call', st, mail⟩ := t
      simp only at hc hm hf
      subst hc hm
      exact hf.writes hfit hb
  | @publishes t row k ht hc hst =>
      have hw := (hs.backed i t ht).writes
      simp only [StoreTask.Writes, hst, hc] at hw
      exact hw
  | @finishes t row k _ ht hc hst hfin =>
      have hw := (hs.backed i t ht).writes
      have hm := (hs.backed i t ht).makes
      simp only [StoreTask.Writes, hst, hc] at hw
      rw [hst, hc] at hm
      rw [hfin]
      exact writes_finalStage hw hm.2
  | _ => exact trivial

theorem Goes.reported (h : Goes s u i call stage op) (ho : Origin s i call stage op)
    (hs : Reported s) : Reported u where
  numbered := h.numbered ho hs.numbered
  backed j t ht := by
    by_cases hj : j = i
    · rw [hj, h.self, Option.some.injEq] at ht
      rw [hj, ← ht, h.db]
      refine ⟨ho.makes hs, ?_, ?_, ho.writes hs⟩
      · intro c p w hc q hq
        simp only at hc
        rw [h.owned_self, Option.mem_toList] at hq
        rw [hc, hq] at ho
        exact ho.asks
      · intro hr a ha
        rcases ha with ha | ha | ha
        · exact absurd ha (by simp)
        · exact absurd ha (by simp)
        · rw [h.owned_self, Option.mem_toList] at ha
          rw [ha] at ho
          obtain ⟨t', ht', hc, hm⟩ := ho.hears
          have := (hs.backed i t' ht').heard (by rw [hc]; exact hr) a (.inl hm)
          rwa [hc] at this
    · rw [h.other j hj] at ht
      exact h.backed_other hj (hs.backed j t ht)

end Going

/-! ### Every run -/

theorem Store.Opened.reported {s : Store} (h : s.Opened) : Reported s := by
  refine ⟨h.numbered, ?_⟩
  intro i t ht
  simp [h.tasks] at ht

theorem Reported.step {s u : Store} {m : StoreMove} (hs : Reported s)
    (hok : readsCommitted s m = true) (h : storeStep s m = some u) : Reported u := by
  rcases storeStep_cases hs.numbered.orderly h with
    ⟨f, e, rest, rfl, hq, rfl⟩ | ⟨i, call, stage, op, hg, ho⟩
  · exact hs.serve hok hq
  · exact hg.reported ho hs

/-- **What the store reports is durable**, in every run whose look-ups find committed rows and in
which no transaction is lost to the failing read of another call: what a call has reported is
committed, and stays so whatever happens later. -/
theorem reported_rows_are_durable {s₀ s u : Store} (h0 : s₀.Opened)
    (h : ReachesVia storeStep (fun s m => readsCommitted s m = true) s₀ s)
    (hu : Reaches storeStep s u) :
    ∀ (i : ℕ) (t : StoreTask), s.tasks[i]? = some t → t.stage.Durable t.call u.db.committed := by
  have hs : Reported s := by
    refine h.invariant h0.reported ?_
    intro t u m _ hok ht hstep
    exact ht.step hok hstep
  intro i t ht
  exact (hs.backed i t ht).writes.durable.mono (hs.numbered.reaches hu).2

/-- An append finds the committed row of another one. -/
def repeatedAppend : List StoreMove :=
  lookUpMoves 0 ++ [StoreMove.acquire 0, .execute .none] ++ appendMoves 0 ++ lookUpMoves 1

/-- The repeated append returns a row that is there for good. -/
theorem repeated_append_is_durable : ∃ s,
    ReachesVia storeStep (fun s m => readsCommitted s m = true) {} s ∧
    s.tasks[1]? = some { call := .append keyedDraft, stage := .returned keyedRow } ∧
    ∀ u, Reaches storeStep s u → keyedRow ∈ u.db.committed.events := by
  obtain ⟨s, hs, hp⟩ := exists_reachesVia_of_run storeStep readsCommitted repeatedAppend {}
    (fun s => s.tasks[1]? = some { call := .append keyedDraft, stage := .returned keyedRow }) (by rfl)
  have ht := of_decide_eq_true hp
  exact ⟨s, hs, ht, fun u hu => reported_rows_are_durable opened_new hs hu 1 _ ht⟩

end JAgent
