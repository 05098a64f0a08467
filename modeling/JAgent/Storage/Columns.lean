import JAgent.Storage.Numbering

/-! # The conversation column

`append_event` fills the column `conversation_id` of a row from the payload, else from a cache that
maps the runs to their conversations.  The cache is filled by the first call that names the
conversation, before its transaction, whether or not it comes to a commit; `claim_client_request`
fills it after its commit; the end of the scheduler evicts the run from it, and a restart rebuilds it
from the RUN rows.

`conversation_column`: if no call for a run names another conversation, and every append that names
none is made while the cache knows the run, then all rows of the run have its conversation, whatever
fails, is cancelled or happens in between.  An append after the eviction has none: `delete_run` of a
run that has ended appends such a row. -/

namespace JAgent
open Lib

/-- The conversation that a payload names. -/
def conversationIn (payload : Obj) : Option String :=
  (payload.get? "conversation_id").bind Value.asStr?

namespace Store
variable (s : Store)

/-- `evict_run_caches`. -/
def evictRunCaches (runId : String) : Store :=
  { s with runToConv := s.runToConv.pop runId, runToWorkspace := s.runToWorkspace.pop runId }

/-- What `_prepopulate_run_to_conv_cache` reads off a row. -/
def cachedConversation (row : EventRow) : Option (String × String) :=
  if row.eventType = .run then
    ((conversationIn row.payload).filter (· ≠ "")).map fun c => (row.runId, c)
  else none

/-- A new process opens the database. -/
def reopened : Store :=
  { db := { committed := s.db.committed }
    runToConv := .ofPairs (s.db.committed.events.filterMap cachedConversation)
    runToWorkspace :=
      .ofPairs (s.db.committed.events.filterMap fun row => row.workspaceId.map fun w => (row.runId, w))
    callbacks := s.callbacks }

end Store

/-- What happens next, caches included. -/
inductive ColumnMove where
  | store (m : StoreMove)
  | evict (runId : String)
  | restart

def columnStep (s : Store) : ColumnMove → Option Store
  | .store m => storeStep s m
  | .evict runId => some (s.evictRunCaches runId)
  | .restart => some s.reopened

/-- The rows of `get_events_for_conversation`. -/
def Tables.eventsForConversation (t : Tables) (conversationId : String) : List EventRow :=
  t.events.filter fun row => row.conversationId = some conversationId || row.runId = conversationId

namespace Store
variable (s : Store)

/-- The draft names the conversation, or names none and the cache knows the run. -/
def knows (c : String) (d : EventDraft) : Bool :=
  match conversationIn d.payload with
  | some c' => c' = c
  | none => (s.runToConv.get? d.runId).isSome

/-- The append that fills the columns of its row in this move: a keyless one at once, a keyed one when
its key was not found. -/
def drafts : StoreMove → Option EventDraft
  | .call (.append d) => if d.idempotencyKey.isNone then some d else none
  | .resume i => match s.tasks[i]? with
    | some ⟨.append d, .checking, some (.answer (.event none))⟩ => some d
    | _ => none
  | _ => none

/-- The claim names the conversation. -/
def claimsFor (r c : String) : StoreMove → Bool
  | .call (.claim cl payload _) => cl.runId ≠ r ||
      (cl.conversationId = c && (conversationIn payload).all (· = c))
  | _ => true

/-- No call for the run names another conversation, and an append that names none finds the run in the
cache. -/
def fillsColumn (r c : String) : ColumnMove → Bool
  | .store m => claimsFor r c m && (s.drafts m).all fun d => d.runId ≠ r || s.knows c d
  | _ => true

end Store

/-! ### Rows that satisfy a condition -/

/-- A row as the run and its conversation want it. -/
def EventRow.Filled (r c : String) (row : EventRow) : Prop :=
  row.runId = r → row.conversationId = some c ∧ ∀ c', conversationIn row.payload = some c' → c' = c

/-- The row a call is to write. -/
def Stage.pendingRow : Stage → Option EventRow
  | .queued row | .writing row .. => some row
  | _ => none

variable {r c : String}

theorem EventRow.Filled.withSeq {row : EventRow} (h : row.Filled r c) (n : ℕ) :
    ({ row with seq := n } : EventRow).Filled r c := h

/-- Every row of the run, written or to be written, is filled. -/
structure Columns (r c : String) (s : Store) : Prop where
  orderly : Orderly s
  committed : ∀ row ∈ s.db.committed.events, row.Filled r c
  view : ∀ row ∈ s.db.view.events, row.Filled r c
  queue : ∀ e ∈ s.queue, ∀ row, e.op = .insertEvent row → row.Filled r c
  stages : ∀ (i : ℕ) (t : StoreTask), s.tasks[i]? = some t → ∀ row, t.stage.pendingRow = some row → row.Filled r c
  claims : ∀ (i : ℕ) (t : StoreTask), s.tasks[i]? = some t → ∀ cl payload w, t.call = .claim cl payload w →
    cl.runId = r → cl.conversationId = c ∧ ∀ c', conversationIn payload = some c' → c' = c
  cache : ∀ c', s.runToConv.get? r = some c' → c' = c

section rows
variable {s u : Store} {i : ℕ} {call : StoreCall} {stage : Stage} {op : Option SqlOp}

/-- The rows after a statement: those that were there, and the one it inserts. -/
theorem rows_execWith {db : Db} {op : SqlOp} {f : Fault} {row : EventRow} :
    (row ∈ (db.execWith op f).1.committed.events → row ∈ db.committed.events ∨ row ∈ db.view.events) ∧
    (row ∈ (db.execWith op f).1.view.events →
      row ∈ db.committed.events ∨ row ∈ db.view.events ∨ op = .insertEvent row) := by
  cases f with
  | none =>
      cases op with
      | begin =>
          simp only [Db.execWith, Db.exec]
          split_ifs
          · exact ⟨.inl, fun h => .inr (.inl h)⟩
          · exact ⟨.inl, .inl⟩
      | commit => exact ⟨.inr, fun h => .inr (.inl h)⟩
      | rollback => exact ⟨.inl, .inl⟩
      | insertEvent row' =>
          simp only [Db.execWith, Db.exec]
          split_ifs
          · exact ⟨.inl, fun h => .inr (.inl h)⟩
          · exact ⟨.inl, fun h => .inr (.inl h)⟩
          · refine ⟨.inl, fun h => ?_⟩
            rcases List.mem_append.mp h with hold | hnew
            · exact .inr (.inl hold)
            · rw [List.mem_singleton.mp hnew]
              exact .inr (.inr rfl)
      | insertClaim c =>
          simp only [Db.execWith, Db.exec]
          split_ifs
          · exact ⟨.inl, fun h => .inr (.inl h)⟩
          · exact ⟨.inl, fun h => .inr (.inl h)⟩
      | select q => exact ⟨.inl, fun h => .inr (.inl h)⟩
      | fetch a => exact ⟨.inl, fun h => .inr (.inl h)⟩
  | abort => exact ⟨.inl, fun h => .inr (.inl h)⟩
  | rollback => exact ⟨.inl, .inl⟩

/-- Where the row of a stage comes from: it was built in this move, or the call had it before. -/
theorem Follows.pendingRow {st : Stage} {res : SqlResult} (hf : Follows s call st res stage op) {row : EventRow}
    (hrow : stage.pendingRow = some row) :
    (∃ d, call = .append d ∧ stage = .queued (s.rowFor d) ∧ st = .checking ∧
      res = .answer (.event none)) ∨
    (∃ cl payload w, call = .claim cl payload w ∧ row = cl.runStarted payload w) ∨
    ∃ row' n, st.pendingRow = some row' ∧ row = { row' with seq := n } := by
  cases hf with
  | fetch _ => exact .inr (.inr ⟨row, row.seq, hrow, rfl⟩)
  | miss hcall => exact .inl ⟨_, hcall, rfl, rfl, rfl⟩
  | free hcall =>
      obtain rfl := Option.some.inj hrow
      exact .inr (.inl ⟨_, _, _, hcall, rfl⟩)
  | numbered =>
      obtain rfl := Option.some.inj hrow
      exact .inr (.inr ⟨_, _, rfl, rfl⟩)
  | claiming _ | numbering _ | orphan | recovered | claimed | inserted | cleanUp _ | retry | recheck _ _ =>
      obtain rfl := Option.some.inj hrow
      exact .inr (.inr ⟨_, _, rfl, rfl⟩)
  | finish hst =>
      rw [hst] at hrow
      unfold Store.finalStage at hrow
      split at hrow <;> cases hrow
  | _ => cases hrow

theorem Origin.pendingRow (ho : Origin s i call stage op) {row : EventRow}
    (hrow : stage.pendingRow = some row) :
    (∃ d, call = .append d ∧ stage = .queued (s.rowFor d) ∧
      (s.tasks[i]? = none ∨ s.tasks[i]? = some ⟨.append d, .checking, some (.answer (.event none))⟩)) ∨
    (∃ cl payload w, call = .claim cl payload w ∧ row = cl.runStarted payload w) ∨
    ∃ t row' n, s.tasks[i]? = some t ∧ t.stage.pendingRow = some row' ∧ row = { row' with seq := n } := by
  cases ho with
  | keyless hnone hcall => exact .inl ⟨_, hcall, rfl, .inl hnone⟩
  | @resumes t res _ _ ht hcall hmail hf =>
      rcases hf.pendingRow hrow with ⟨d, hd, hst, hold, hres⟩ | hclaim | ⟨row', n, hrow', hn⟩
      · refine .inl ⟨d, hd, hst, .inr ?_⟩
        obtain ⟨tcall, tstage, tmail⟩ := t
        simp only at hcall hold hmail
        rw [ht, hcall, hd, hold, hmail, hres]
      · exact .inr (.inl hclaim)
      · exact .inr (.inr ⟨t, row', n, ht, hrow', hn⟩)
  | acquires ht _ hst | cleansUp ht _ hst =>
      obtain rfl := Option.some.inj hrow
      refine .inr (.inr ⟨_, _, _, ht, ?_, rfl⟩)
      rw [hst]
      rfl
  | finishes _ _ _ hst =>
      rw [hst] at hrow
      unfold Store.finalStage at hrow
      split at hrow <;> cases hrow
  | _ => cases hrow

/-- A row that is inserted is the row of the stage. -/
theorem Origin.insertEvent {row : EventRow} (ho : Origin s i call stage (some (.insertEvent row))) :
    stage.pendingRow = some row := by
  cases ho with
  | @resumes t _ _ _ _ _ _ hf =>
      generalize t.stage = st at hf
      cases hf with
      | numbered => rfl
      | claimed => rfl

/-- A call keeps its arguments. -/
theorem Origin.call_eq (ho : Origin s i call stage op) {t : StoreTask} (ht : s.tasks[i]? = some t) :
    t.call = call := by
  cases ho with
  | looksUp hnone _ _ | keyless hnone _ | claims hnone _ | reads hnone _ =>
      rw [hnone] at ht
      cases ht
  | resumes ht' hcall _ _ | acquires ht' hcall _ | publishes ht' hcall _ | finishes ht' hcall _ _
  | raises ht' hcall | cleansUp ht' hcall _ =>
      rw [ht'] at ht
      rw [← Option.some.inj ht]
      exact hcall

/-! ### Every move -/

/-- A call goes on: the rows stay filled if the one it builds is, and if it is a claim for the run then
one of the conversation. -/
theorem Columns.goes (h : Columns r c s) (hg : Goes s u i call stage op) (ho : Origin s i call stage op)
    (hbuilt : ∀ d, call = .append d → stage = .queued (s.rowFor d) →
      (s.tasks[i]? = none ∨ s.tasks[i]? = some ⟨.append d, .checking, some (.answer (.event none))⟩) →
      (s.rowFor d).Filled r c)
    (hclaim : s.tasks[i]? = none → ∀ cl payload w, call = .claim cl payload w → cl.runId = r →
      cl.conversationId = c ∧ ∀ c', conversationIn payload = some c' → c' = c)
    (hcache : ∀ c', u.runToConv.get? r = some c' → c' = c) : Columns r c u := by
  have hcall : ∀ cl payload w, call = .claim cl payload w → cl.runId = r →
      cl.conversationId = c ∧ ∀ c', conversationIn payload = some c' → c' = c := by
    intro cl payload w hcl hr
    cases ht : s.tasks[i]? with
    | none => exact hclaim ht cl payload w hcl hr
    | some t => exact h.claims i t ht cl payload w ((ho.call_eq ht).trans hcl) hr
  have hpending : ∀ row, stage.pendingRow = some row → row.Filled r c := by
    intro row hrow
    rcases ho.pendingRow hrow with ⟨d, hd, hst, hfrom⟩ | ⟨cl, payload, w, hcl, rfl⟩ |
        ⟨t, row', n, ht, hrow', rfl⟩
    · rw [hst] at hrow
      rw [← Option.some.inj hrow]
      exact hbuilt d hd hst hfrom
    · intro hr
      obtain ⟨hconv, hpayload⟩ := hcall cl payload w hcl hr
      exact ⟨congrArg some hconv, hpayload⟩
    · exact (h.stages i t ht row' hrow').withSeq n
  refine ⟨hg.orderly h.orderly, ?_, ?_, ?_, ?_, ?_, hcache⟩
  · rw [hg.db]
    exact h.committed
  · rw [hg.db]
    exact h.view
  · intro e he row hop
    rcases hg.mem_queue he with ⟨e', he', hop'⟩ | hnew
    · exact h.queue e' he' row (hop'.trans hop)
    · rw [hop] at hnew
      subst hnew
      exact hpending row ho.insertEvent
  · intro j t ht row hrow
    by_cases hj : j = i
    · subst hj
      rw [hg.self] at ht
      obtain rfl := Option.some.inj ht
      exact hpending row hrow
    · rw [hg.other j hj] at ht
      exact h.stages j t ht row hrow
  · intro j t ht cl payload w hcl
    by_cases hj : j = i
    · subst hj
      rw [hg.self] at ht
      obtain rfl := Option.some.inj ht
      exact hcall cl payload w hcl
    · rw [hg.other j hj] at ht
      exact h.claims j t ht cl payload w hcl

/-- The worker inserts filled rows. -/
theorem Columns.serve (h : Columns r c s) {e : Ticket SqlOp} {rest : List (Ticket SqlOp)}
    (hq : s.queue = e :: rest) (f : Fault) : Columns r c (s.serve e rest f) := by
  have he : e ∈ s.queue := by
    rw [hq]
    exact List.mem_cons_self
  have hrun : (s.serve e rest f).runToConv = s.runToConv := by
    unfold Store.serve Store.deliver
    split <;> rfl
  have htask : ∀ {j : ℕ} {t : StoreTask}, (s.serve e rest f).tasks[j]? = some t →
      ∃ t₀, s.tasks[j]? = some t₀ ∧ t.call = t₀.call ∧ t.stage = t₀.stage := by
    intro j t ht
    rcases serve_task ht with ⟨_, t₀, ht₀, rfl⟩ | ⟨_, ht₀⟩
    · exact ⟨t₀, ht₀, rfl, rfl⟩
    · exact ⟨t, ht₀, rfl, rfl⟩
  refine ⟨h.orderly.serve hq f, ?_, ?_, ?_, ?_, ?_, ?_⟩
  · intro row hrow
    rw [serve_db] at hrow
    rcases rows_execWith.1 hrow with hold | hview
    · exact h.committed row hold
    · exact h.view row hview
  · intro row hrow
    rw [serve_db] at hrow
    rcases rows_execWith.2 hrow with hold | hview | hins
    · exact h.committed row hold
    · exact h.view row hview
    · exact h.queue e he row hins
  · intro e' he' row hop
    rw [serve_queue] at he'
    refine h.queue e' ?_ row hop
    rw [hq]
    exact List.mem_cons_of_mem _ he'
  · intro j t ht row hrow
    obtain ⟨t₀, ht₀, _, hst⟩ := htask ht
    rw [hst] at hrow
    exact h.stages j t₀ ht₀ row hrow
  · intro j t ht cl payload w hcl
    obtain ⟨t₀, ht₀, hcall, _⟩ := htask ht
    rw [hcall] at hcl
    exact h.claims j t₀ ht₀ cl payload w hcl
  · rw [hrun]
    exact h.cache

/-! ### The cache -/

theorem checked_runToConv {t : StoreTask} {r : SqlResult} :
    (s.checked i t r).runToConv = s.runToConv ∨ ∃ d, t.call = .append d ∧ r = .answer (.event none) ∧
      (s.checked i t r).runToConv = (s.cacheColumns (s.rowFor d)).runToConv := by
  unfold Store.checked
  split
  · exact .inl rfl
  · split
    next => exact .inl rfl
    next d hcall => exact .inr ⟨d, hcall, rfl, rfl⟩
    all_goals exact .inl rfl
  · exact .inl rfl

@[simp] theorem publish_runToConv (t : StoreTask) (row : EventRow) (k : ℕ) :
    (s.publish i t row k).runToConv = s.runToConv := by
  unfold Store.publish
  split_ifs <;> rfl

theorem committedTxn_runToConv (t : StoreTask) (row : EventRow) :
    (s.committedTxn i t row).runToConv = s.runToConv ∨ ∃ cl payload w, t.call = .claim cl payload w ∧
      (s.committedTxn i t row).runToConv = s.runToConv.set cl.runId cl.conversationId := by
  unfold Store.committedTxn
  split
  next cl payload w hcall =>
    refine .inr ⟨cl, payload, w, hcall, ?_⟩
    rw [publish_runToConv]
    rfl
  · exact .inl (publish_runToConv _ _ _)

theorem written_runToConv (s : Store) (i : ℕ) (t : StoreTask) (row : EventRow) (attempt : ℕ) (pc : TxnPc)
    (r : SqlResult) : (s.written i t row attempt pc r).runToConv = s.runToConv ∨
      ∃ cl payload w, t.call = .claim cl payload w ∧
        (s.written i t row attempt pc r).runToConv = s.runToConv.set cl.runId cl.conversationId := by
  have hentered : (s.enterBody i t row attempt).runToConv = s.runToConv := by
    unfold Store.enterBody
    split <;> rfl
  have hcleaned : ∀ cause, (s.cleanedUp i t row attempt cause).runToConv = s.runToConv := by
    intro cause
    unfold Store.cleanedUp
    repeat' split
    all_goals rfl
  unfold Store.written
  split
  all_goals first
    | exact .inl rfl
    | exact .inl hentered
    | exact .inl (hcleaned _)
    | exact committedTxn_runToConv t row

/-- **What a move does to the cache**: nothing, or the append that fills its columns enters its
conversation, or a claim is committed. -/
theorem storeStep_runToConv {m : StoreMove} (h : storeStep s m = some u) :
    u.runToConv = s.runToConv ∨
    (∃ d, s.drafts m = some d ∧ u.runToConv = (s.cacheColumns (s.rowFor d)).runToConv) ∨
    ∃ (i : ℕ) (t : StoreTask) (cl : ClaimRow) (payload : Obj) (w : Option String),
      s.tasks[i]? = some t ∧ t.call = .claim cl payload w ∧
        u.runToConv = s.runToConv.set cl.runId cl.conversationId := by
  cases m with
  | call call =>
      obtain rfl := Option.some.inj h
      cases call with
      | append d =>
          cases hkey : d.idempotencyKey with
          | some key =>
              refine .inl ?_
              simp only [Store.begin, hkey]
              rfl
          | none =>
              refine .inr (.inl ⟨d, by simp [Store.drafts, hkey], ?_⟩)
              simp only [Store.begin, hkey]
              rfl
      | claim cl payload w => exact .inl rfl
      | read q => exact .inl rfl
  | execute f =>
      simp only [storeStep] at h
      split at h
      · cases h
      · obtain rfl := Option.some.inj h
        refine .inl ?_
        unfold Store.serve Store.deliver
        split <;> rfl
  | resume i =>
      simp only [storeStep, Option.bind_eq_some_iff] at h
      obtain ⟨t, ht, res, hres, h⟩ := h
      unfold Store.advance at h
      split at h
      next hst =>
        obtain rfl := Option.some.inj h
        rcases checked_runToConv (s := s) (i := i) (t := t) (r := res) with hsame | ⟨d, hd, hr, hset⟩
        · exact .inl hsame
        · refine .inr (.inl ⟨d, ?_, hset⟩)
          obtain ⟨tcall, tstage, tmail⟩ := t
          simp only at hd hst hres
          simp only [Store.drafts, ht, hd, hst, hres, hr]
      next row attempt pc hst =>
        obtain rfl := Option.some.inj h
        rcases written_runToConv s i t row attempt pc res with hsame | ⟨cl, payload, w, hcl, hset⟩
        · exact .inl hsame
        · exact .inr (.inr ⟨i, t, cl, payload, w, ht, hcl, hset⟩)
      next =>
        obtain rfl := Option.some.inj h
        refine .inl ?_
        unfold Store.reread
        split <;> rfl
      · cases h
  | acquire i =>
      simp only [storeStep, Option.bind_eq_some_iff] at h
      obtain ⟨t, ht, h⟩ := h
      split at h
      · obtain rfl := Option.some.inj h
        exact .inl rfl
      · cases h
  | called i =>
      simp only [storeStep, Option.bind_eq_some_iff] at h
      obtain ⟨t, ht, h⟩ := h
      split at h
      · obtain rfl := Option.some.inj h
        refine .inl ?_
        unfold Store.publish
        split_ifs <;> rfl
      · cases h
  | cancel i =>
      simp only [storeStep, Option.bind_eq_some_iff] at h
      obtain ⟨t, ht, h⟩ := h
      unfold Store.cancelTask at h
      split at h
      all_goals first
        | (obtain rfl := Option.some.inj h; exact .inl rfl)
        | cases h

/-- An append that knows its run's conversation builds a filled row. -/
theorem Columns.rowFor (h : Columns r c s) {d : EventDraft} (hk : d.runId ≠ r ∨ s.knows c d = true) :
    (s.rowFor d).Filled r c := by
  intro hr
  have hknows : s.knows c d = true := hk.resolve_left fun hne => hne hr
  have hr' : d.runId = r := hr
  unfold Store.knows at hknows
  show s.conversationFor d = some c ∧ ∀ c', conversationIn d.payload = some c' → c' = c
  have hconv : s.conversationFor d = (conversationIn d.payload).or (s.runToConv.get? d.runId) := rfl
  rw [hconv, hr']
  rw [hr'] at hknows
  split at hknows
  next c' hc' =>
    rw [hc']
    have heq : c' = c := of_decide_eq_true hknows
    refine ⟨by rw [heq]; rfl, ?_⟩
    intro c'' hc''
    rw [← Option.some.inj hc'', heq]
  next hnone =>
    obtain ⟨c', hc'⟩ := Option.isSome_iff_exists.mp hknows
    rw [hnone, hc', h.cache c' hc']
    refine ⟨rfl, ?_⟩
    intro c'' hc''
    cases hc''

/-- The cache after an append that fills its columns. -/
theorem Columns.cacheColumns (h : Columns r c s) {row : EventRow} (hrow : row.Filled r c) {c' : String}
    (hc : (s.cacheColumns row).runToConv.get? r = some c') : c' = c := by
  unfold Store.cacheColumns at hc
  simp only at hc
  split at hc
  next c₀ hconv _ =>
    rcases Dict.get?_set_cases hc with ⟨hr, rfl⟩ | hold
    · have hfilled := (hrow hr).1
      rw [hconv] at hfilled
      exact Option.some.inj hfilled
    · exact h.cache c' hold.2
  · exact h.cache c' hc

/-- The cache after a move whose append, if it has one, builds a filled row. -/
theorem Columns.cache_store (h : Columns r c s) {m : StoreMove}
    (hdraft : ∀ d, s.drafts m = some d → (s.rowFor d).Filled r c) (hs : storeStep s m = some u) {c' : String}
    (hc' : u.runToConv.get? r = some c') : c' = c := by
  rcases storeStep_runToConv hs with hsame | ⟨d, hd, hset⟩ | ⟨i, t, cl, payload, w, ht, hcl, hset⟩
  · rw [hsame] at hc'
    exact h.cache c' hc'
  · rw [hset] at hc'
    exact h.cacheColumns (hdraft d hd) hc'
  · rw [hset] at hc'
    rcases Dict.get?_set_cases hc' with ⟨hr, rfl⟩ | hold
    · exact (h.claims i t ht cl payload w hcl hr).1
    · exact h.cache c' hold.2

/-- A call that was there goes on; it builds a row only when the lookup of its key has found nothing. -/
theorem Columns.goes_on (h : Columns r c s) (hg : Goes s u i call stage op) (ho : Origin s i call stage op)
    {t : StoreTask} (ht : s.tasks[i]? = some t)
    (hbuilt : ∀ d, stage = .queued (s.rowFor d) → t = ⟨.append d, .checking, some (.answer (.event none))⟩ →
      (s.rowFor d).Filled r c)
    (hcache : ∀ c', u.runToConv.get? r = some c' → c' = c) : Columns r c u := by
  refine h.goes hg ho ?_ ?_ hcache
  · intro d _ hst hfrom
    rcases hfrom with hnone | hsome
    · rw [hnone] at ht
      cases ht
    · rw [hsome] at ht
      exact hbuilt d hst (Option.some.inj ht).symm
  · intro hnone
    rw [hnone] at ht
    cases ht

/-- **A move of the store keeps the rows of the run filled.** -/
theorem Columns.store (h : Columns r c s) {m : StoreMove} (hok : s.fillsColumn r c (.store m) = true)
    (hs : storeStep s m = some u) : Columns r c u := by
  simp only [Store.fillsColumn, Bool.and_eq_true] at hok
  obtain ⟨hclaims, hdrafts⟩ := hok
  have hdraft : ∀ d, s.drafts m = some d → (s.rowFor d).Filled r c := by
    intro d hd
    rw [hd] at hdrafts
    refine h.rowFor ?_
    simpa using hdrafts
  have hcache : ∀ c', u.runToConv.get? r = some c' → c' = c := fun c' hc' => h.cache_store hdraft hs hc'
  cases m with
  | call call =>
      obtain rfl := Option.some.inj hs
      obtain ⟨stage, op, hg, ho⟩ := begin_goes h.orderly call
      refine h.goes hg ho ?_ ?_ hcache
      · rintro d rfl hst -
        refine hdraft d ?_
        cases hkey : d.idempotencyKey with
        | none => simp [Store.drafts, hkey]
        | some key =>
            -- a keyed append looks its key up first
            have hself := hg.self
            simp [Store.begin, hkey, Store.go, hst] at hself
      · rintro - cl payload w rfl hr
        simp only [Store.claimsFor, hr, ne_eq, not_true_eq_false, decide_false, Bool.false_or,
          Bool.and_eq_true, decide_eq_true_eq, Option.all_eq_true] at hclaims
        exact hclaims
  | execute f =>
      simp only [storeStep] at hs
      split at hs
      · cases hs
      next e rest hq =>
        obtain rfl := Option.some.inj hs
        exact h.serve hq f
  | resume i =>
      obtain ⟨call, stage, op, hg, ho⟩ := resume_goes h.orderly hs
      simp only [storeStep, Option.bind_eq_some_iff] at hs
      obtain ⟨t, ht, -⟩ := hs
      refine h.goes_on hg ho ht ?_ hcache
      rintro d - rfl
      exact hdraft d (by simp [Store.drafts, ht])
  | acquire i =>
      obtain ⟨call, stage, op, hg, ho⟩ := acquire_goes h.orderly hs
      simp only [storeStep, Option.bind_eq_some_iff] at hs
      obtain ⟨t, ht, hs⟩ := hs
      refine h.goes_on hg ho ht ?_ hcache
      rintro d - rfl
      cases hs
  | called i =>
      obtain ⟨call, stage, op, hg, ho⟩ := called_goes h.orderly hs
      simp only [storeStep, Option.bind_eq_some_iff] at hs
      obtain ⟨t, ht, hs⟩ := hs
      refine h.goes_on hg ho ht ?_ hcache
      rintro d - rfl
      cases hs
  | cancel i =>
      obtain ⟨call, stage, op, hg, ho⟩ := cancel_goes h.orderly hs
      simp only [storeStep, Option.bind_eq_some_iff] at hs
      obtain ⟨t, ht, hs⟩ := hs
      refine h.goes_on hg ho ht ?_ hcache
      rintro d hst rfl
      have hself := hg.self
      obtain rfl := Option.some.inj hs
      simp [Store.leave, Store.go, hst, (List.getElem?_eq_some_iff.mp ht).1] at hself

theorem Columns.evict (h : Columns r c s) (runId : String) : Columns r c (s.evictRunCaches runId) := by
  refine ⟨⟨h.orderly.locked, h.orderly.fresh, h.orderly.expects, h.orderly.trailing⟩, h.committed, h.view, h.queue,
    h.stages, h.claims, ?_⟩
  intro c' hc'
  simp only [Store.evictRunCaches, Dict.get?_pop] at hc'
  split_ifs at hc'
  exact h.cache c' hc'

/-- A restart rebuilds the cache from filled rows. -/
theorem Columns.restart (h : Columns r c s) : Columns r c s.reopened := by
  refine ⟨?_, h.committed, h.committed, ?_, ?_, ?_, ?_⟩
  · refine ⟨?_, ?_, ?_, ?_⟩ <;> simp [Store.reopened, owned]
  · simp [Store.reopened]
  · simp [Store.reopened]
  · simp [Store.reopened]
  · intro c' hc'
    have hmem := Dict.mem_of_get?_ofPairs hc'
    obtain ⟨row, hrow, hcached⟩ := List.mem_filterMap.mp hmem
    unfold Store.cachedConversation at hcached
    split_ifs at hcached
    obtain ⟨c'', hc'', heq⟩ := Option.map_eq_some_iff.mp hcached
    obtain ⟨hrun, rfl⟩ := Prod.mk.inj heq
    exact (h.committed row hrow hrun).2 _ (Option.filter_eq_some_iff.mp hc'').1

theorem Columns.step (h : Columns r c s) {m : ColumnMove} (hok : s.fillsColumn r c m = true)
    (hs : columnStep s m = some u) : Columns r c u := by
  cases m with
  | store m => exact h.store hok hs
  | evict runId =>
      obtain rfl := Option.some.inj hs
      exact h.evict runId
  | restart =>
      obtain rfl := Option.some.inj hs
      exact h.restart

/-- **The conversation column.**  If no call for the run names another conversation, and every append
that names none finds the run in the cache, then every row of the run is one of its conversation. -/
theorem conversation_column
    (h : ReachesVia columnStep (fun s m => s.fillsColumn r c m = true) {} s) :
    (∀ row ∈ s.db.view.events, row.runId = r → row.conversationId = some c) ∧
    ∀ row ∈ s.db.committed.events, row.runId = r →
      row.conversationId = some c ∧ row ∈ s.db.committed.eventsForConversation c := by
  have hinv : Columns r c s := by
    refine h.invariant ⟨⟨?_, ?_, ?_, ?_⟩, ?_, ?_, ?_, ?_, ?_, ?_⟩ fun _ _ _ _ hok hi hs => hi.step hok hs
    all_goals simp [owned, Db.view]
  refine ⟨fun row hrow hr => (hinv.view row hrow hr).1, ?_⟩
  intro row hrow hr
  have hconv := (hinv.committed row hrow hr).1
  refine ⟨hconv, ?_⟩
  unfold Tables.eventsForConversation
  rw [List.mem_filter]
  exact ⟨hrow, by simp [hconv]⟩

end rows

/-! ### A run that is deleted after its end -/

/-- RunStarted of a run in a conversation. -/
def startDraft : EventDraft :=
  { runId := "r", eventType := .run
    payload := [("phase", .str "started"), ("intent", .str "hello"), ("conversation_id", .str "conv_a")] }

/-- RunFailed, as `delete_run` appends it. -/
def failDraft : EventDraft :=
  { runId := "r", eventType := .run
    payload := [("phase", .str "failed"), ("final_error", .str "Run deleted by user"), ("event_count", .int 1)] }

/-- An append from its call to its return. -/
def wholeAppend (d : EventDraft) (i : ℕ) : List ColumnMove :=
  (.call (.append d) :: .acquire i :: .execute .none :: appendMoves i).map ColumnMove.store

/-- The committed rows with their columns. -/
def columnsOf (s : Store) : List (String × Option String) :=
  s.db.committed.events.map fun row => (row.runId, row.conversationId)

/-- The run was started in the conversation, and has a row outside of it. -/
def leftConversation (s : Store) : Bool :=
  s.db.committed.events.any (fun row => row.runId = "r" && conversationIn row.payload = some "conv_a") &&
    s.db.committed.events.any fun row => row.runId = "r" && row.conversationId ≠ some "conv_a" &&
      row ∉ s.db.committed.eventsForConversation "conv_a"

/-- The caches are evicted when the scheduler ends; the run is deleted later. -/
theorem deleted_run_leaves_conversation : ∃ s, Reaches columnStep {} s ∧
    (∃ row ∈ s.db.committed.events, row.runId = "r" ∧ conversationIn row.payload = some "conv_a") ∧
    ∃ row ∈ s.db.committed.events, row.runId = "r" ∧ row.conversationId ≠ some "conv_a" ∧
      row ∉ s.db.committed.eventsForConversation "conv_a" := by
  obtain ⟨s, hs, hp⟩ := exists_reaches_of_run columnStep
    (wholeAppend startDraft 0 ++ .evict "r" :: wholeAppend failDraft 1) {} leftConversation
    (by decide +kernel)
  simp only [leftConversation, Bool.and_eq_true, List.any_eq_true, decide_eq_true_eq] at hp
  obtain ⟨⟨row, hrow, hr, hc⟩, row', hrow', ⟨hr', hc'⟩, hout⟩ := hp
  exact ⟨s, hs, ⟨row, hrow, hr, hc⟩, row', hrow', hr', hc', by simpa using hout⟩

/-- Without the eviction both rows are of the conversation. -/
theorem failed_run_keeps_conversation : ∃ s,
    ReachesVia columnStep (fun s m => s.fillsColumn "r" "conv_a" m = true) {} s ∧
      columnsOf s = [("r", some "conv_a"), ("r", some "conv_a")] ∧
      ∀ row ∈ s.db.committed.events, row.runId = "r" →
        row.conversationId = some "conv_a" ∧ row ∈ s.db.committed.eventsForConversation "conv_a" := by
  obtain ⟨s, hs, hp⟩ := exists_reachesVia_of_run columnStep (Store.fillsColumn · "r" "conv_a")
    (wholeAppend startDraft 0 ++ wholeAppend failDraft 1) {}
    (fun s => columnsOf s = [("r", some "conv_a"), ("r", some "conv_a")]) (by decide +kernel)
  exact ⟨s, hs, of_decide_eq_true hp, (conversation_column hs).2⟩

end JAgent
