import JAgent.Lib.Dict
import JAgent.Lib.Queue
import JAgent.Lib.System
import JAgent.Models.Events

/-! # The event store

`append_event` and `claim_client_request` of `EventStore` with the reads next to them, at every
await.  All calls share one connection: each statement is put into the queue of the connection's
worker thread and then awaited.  Cancelling a call ends its wait and leaves the statement in the
queue.  Writes run in a transaction (`_txn_immediate`) under `_db_write_lock`; reads do not take
the lock, and so see what an open transaction has written.

A `Store` is the database with its open transaction, the queue, the lock and the calls, each at
the statement it waits for.  The worker may fail any statement, with or without rolling the
transaction back. -/

namespace JAgent
open Lib

/-! ### The database -/

/-- A row of `events`. -/
structure EventRow where
  runId : String
  tenantId : String := "default"
  workspaceId : Option String := none
  seq : ℕ := 0
  eventType : EventType
  payload : Obj
  idempotencyKey : Option String := none
  conversationId : Option String := none
  isAudit : Bool := false
deriving DecidableEq

/-- A row of `client_request_claims`. -/
structure ClaimRow where
  tenantId : String := "default"
  conversationId : String
  clientRequestId : String
  runId : String
deriving DecidableEq

/-- The row has this idempotency key. -/
def EventRow.hasKey (row : EventRow) (runId : String) (eventType : EventType) (key : String) : Bool :=
  row.runId = runId && row.eventType = eventType && row.idempotencyKey = some key

/-- The row claims this request. -/
def ClaimRow.isFor (c : ClaimRow) (tenantId conversationId clientRequestId : String) : Bool :=
  c.tenantId = tenantId && c.conversationId = conversationId && c.clientRequestId = clientRequestId

/-- The tables, in the order of insertion. -/
structure Tables where
  events : List EventRow := []
  claims : List ClaimRow := []
deriving DecidableEq

namespace Tables
variable (t : Tables)

def rowsOf (runId : String) : List EventRow := t.events.filter (·.runId = runId)

/-- `idx_idem` refuses the row. -/
def clashesOnKey (row : EventRow) : Bool :=
  row.idempotencyKey.any fun k => t.events.any (·.hasKey row.runId row.eventType k)

/-- The primary key of `events` refuses the row. -/
def clashesOnSeq (row : EventRow) : Bool := (t.rowsOf row.runId).any (·.seq = row.seq)

/-- The primary key of `client_request_claims` refuses the row. -/
def clashesOnClaim (c : ClaimRow) : Bool :=
  t.claims.any (·.isFor c.tenantId c.conversationId c.clientRequestId)

def addEvent (row : EventRow) : Tables := { t with events := t.events ++ [row] }

def addClaim (c : ClaimRow) : Tables := { t with claims := t.claims ++ [c] }

end Tables

/-- The SELECT statements. -/
inductive Query where
  /-- `SELECT COALESCE(MAX(seq), 0) + 1` of a run. -/
  | nextSeq (runId : String)
  /-- `find_by_idempotency_key`. -/
  | byKey (runId : String) (eventType : EventType) (key : String)
  /-- The claim of a request. -/
  | byRequest (tenantId conversationId clientRequestId : String)
  /-- `get_events`. -/
  | byRun (runId : String)
deriving DecidableEq

/-- The rows of a SELECT. -/
inductive SqlAnswer where
  | seq (n : ℕ)
  | event (row : Option EventRow)
  | claim (row : Option ClaimRow)
  | events (rows : List EventRow)
deriving DecidableEq

def Query.answer (t : Tables) : Query → SqlAnswer
  | .nextSeq runId => .seq (((t.rowsOf runId).map (·.seq)).max?.getD 0 + 1)
  | .byKey runId eventType key => .event (t.events.find? (·.hasKey runId eventType key))
  | .byRequest tenantId conversationId clientRequestId =>
      .claim (t.claims.find? (·.isFor tenantId conversationId clientRequestId))
  | .byRun runId => .events ((t.rowsOf runId).mergeSort (·.seq ≤ ·.seq))

/-- The statements the worker executes.  `fetch` is `fetchone` or `fetchall` on the cursor of a
SELECT. -/
inductive SqlOp where
  | begin | commit | rollback
  | insertEvent (row : EventRow)
  | insertClaim (c : ClaimRow)
  | select (q : Query)
  | fetch (a : SqlAnswer)
deriving DecidableEq

/-- Everything but SELECT and its fetch. -/
def SqlOp.isWrite : SqlOp → Bool
  | .select _ | .fetch _ => false
  | _ => true

/-- What the worker returns to the caller. -/
inductive SqlResult where
  | done
  | cursor (a : SqlAnswer)
  | answer (a : SqlAnswer)
  /-- "cannot start a transaction within a transaction" -/
  | nested
  /-- UNIQUE constraint on `events.idempotency_key`. -/
  | duplicateKey
  /-- Another UNIQUE constraint. -/
  | duplicate
  /-- Any other error. -/
  | failed
deriving DecidableEq

/-- The database: what is committed, and the tables of the open transaction. -/
structure Db where
  committed : Tables := {}
  working : Option Tables := none
deriving DecidableEq

namespace Db
variable (db : Db)

/-- What a statement on this connection sees. -/
def view : Tables := db.working.getD db.committed

/-- The driver opens a transaction before an INSERT when there is none. -/
def withTxn (t : Tables) : Db := { db with working := some t }

/-- A statement that does not fail for outer reasons. -/
def exec : SqlOp → Db × SqlResult
  | .begin =>
      if db.working.isSome then (db, .nested) else (db.withTxn db.committed, .done)
  | .commit => ({ committed := db.view }, .done)
  | .rollback => ({ db with working := none }, .done)
  | .insertEvent row =>
      if db.view.clashesOnKey row then (db.withTxn db.view, .duplicateKey)
      else if db.view.clashesOnSeq row then (db.withTxn db.view, .duplicate)
      else (db.withTxn (db.view.addEvent row), .done)
  | .insertClaim c =>
      if db.view.clashesOnClaim c then (db.withTxn db.view, .duplicate)
      else (db.withTxn (db.view.addClaim c), .done)
  | .select q => (db, .cursor (q.answer db.view))
  | .fetch a => (db, .answer a)

end Db

/-- How the environment makes a statement fail. -/
inductive Fault where
  | none
  /-- The statement has no effect. -/
  | abort
  /-- The open transaction is rolled back. -/
  | rollback
deriving DecidableEq

/-- A statement under a fault. -/
def Db.execWith (db : Db) (op : SqlOp) : Fault → Db × SqlResult
  | .none => db.exec op
  | .abort => (db, .failed)
  | .rollback => ({ db with working := none }, .failed)

/-! ### The calls -/

/-- The arguments of `append_event`; the payload is validated. -/
structure EventDraft where
  runId : String
  eventType : EventType
  payload : Obj
  tenantId : String := "default"
  workspaceId : Option String := none
  idempotencyKey : Option String := none
  isAudit : Bool := false
  maxRetries : ℕ := 3
deriving DecidableEq

/-- The calls of the store's clients; `claim` has the row to claim with, the payload of RunStarted
and the workspace. -/
inductive StoreCall where
  | append (d : EventDraft)
  | claim (c : ClaimRow) (payload : Obj) (workspaceId : Option String)
  | read (q : Query)
deriving DecidableEq

/-- The RUN event a claim creates. -/
def ClaimRow.runStarted (c : ClaimRow) (payload : Obj) (workspaceId : Option String) : EventRow :=
  { runId := c.runId
    tenantId := c.tenantId
    workspaceId := workspaceId
    seq := 1
    eventType := .run
    payload := payload
    idempotencyKey := some ("client-request:" ++ c.conversationId ++ ":" ++ c.clientRequestId)
    conversationId := some c.conversationId }

/-- Why the body of a transaction was left. -/
inductive Cause where
  /-- Cancelled, or an error that is not an IntegrityError. -/
  | error
  | duplicateKey
  | duplicate
deriving DecidableEq

/-- The statement a writer under the lock waits for. -/
inductive TxnPc where
  /-- BEGIN IMMEDIATE; `again` after an orphaned transaction was rolled back. -/
  | beginning (again : Bool)
  /-- ROLLBACK of an orphaned transaction. -/
  | recovering
  /-- SELECT of the next `seq`. -/
  | numbering
  /-- INSERT into `client_request_claims`. -/
  | claiming
  /-- INSERT into `events`. -/
  | inserting
  | committing
  /-- ROLLBACK in the `except` clause of `_txn_immediate`. -/
  | cleaning (cause : Cause)
  /-- `append_event` looks up the key that was refused. -/
  | rechecking
deriving DecidableEq

/-- Where a call is. -/
inductive Stage where
  /-- The look-up that precedes a write, or the SELECT of a read. -/
  | checking
  /-- Waiting for `_db_write_lock`. -/
  | queued (row : EventRow)
  /-- Holding the lock. -/
  | writing (row : EventRow) (attempt : ℕ) (pc : TxnPc)
  /-- `claim_client_request` looks up the claim that was refused. -/
  | rereading
  /-- Waiting for the `k`-th callback. -/
  | publishing (row : EventRow) (k : ℕ)
  /-- `append_event` has returned. -/
  | returned (row : EventRow)
  /-- `claim_client_request` has returned. -/
  | claimed (runId : String) (created : Bool)
  /-- A read has returned. -/
  | answered (a : SqlAnswer)
  | raised
deriving DecidableEq

namespace Stage

/-- The lock is held. -/
def inside : Stage → Bool
  | .writing .. => true
  | _ => false

/-- A statement is awaited. -/
def waits : Stage → Bool
  | .checking | .writing .. | .rereading => true
  | _ => false

end Stage

/-- A call with the result that has arrived for it. -/
structure StoreTask where
  call : StoreCall
  stage : Stage
  mail : Option SqlResult := none
deriving DecidableEq

/-- The store. -/
structure Store where
  db : Db := {}
  queue : List (Ticket SqlOp) := []
  /-- The holder of `_db_write_lock`. -/
  holder : Option ℕ := none
  tasks : List StoreTask := []
  runToConv : Dict String String := .empty
  runToWorkspace : Dict String String := .empty
  /-- How many callbacks `on_append` has registered. -/
  callbacks : ℕ := 0
  /-- The invocations of the callbacks. -/
  published : List (ℕ × EventRow) := []

namespace Store
variable (s : Store)

/-! ### What a call does between two awaits -/

/-- `conversation_id` of the payload, else of the run. -/
def conversationFor (d : EventDraft) : Option String :=
  ((d.payload.get? "conversation_id").bind Value.asStr?).or (s.runToConv.get? d.runId)

/-- The row of `append_event`; its `seq` is assigned in the transaction. -/
def rowFor (d : EventDraft) : EventRow :=
  { runId := d.runId
    tenantId := d.tenantId
    workspaceId := d.workspaceId.or (s.runToWorkspace.get? d.runId)
    eventType := d.eventType
    payload := d.payload
    idempotencyKey := d.idempotencyKey
    conversationId := s.conversationFor d
    isAudit := d.isAudit }

/-- `append_event` fills the caches before it waits for the lock. -/
def cacheColumns (row : EventRow) : Store :=
  { s with
    runToConv := match row.conversationId, s.runToConv.get? row.runId with
      | some c, none => s.runToConv.set row.runId c
      | _, _ => s.runToConv
    runToWorkspace := match row.workspaceId, s.runToWorkspace.get? row.runId with
      | some w, none => s.runToWorkspace.set row.runId w
      | _, _ => s.runToWorkspace }

/-- `claim_client_request` fills the caches after its commit. -/
def cacheClaim (c : ClaimRow) (workspaceId : Option String) : Store :=
  { s with
    runToConv := s.runToConv.set c.runId c.conversationId
    runToWorkspace := match workspaceId with
      | some w => s.runToWorkspace.set c.runId w
      | none => s.runToWorkspace }

/-- The call goes on at a stage, awaiting a statement there or none; leaving the `writing` stages
releases the lock. -/
def go (i : ℕ) (t : StoreTask) (stage : Stage) (op : Option SqlOp) : Store :=
  { s with
    tasks := s.tasks.set i { call := t.call, stage := stage }
    queue := s.queue ++ op.toList.map (Ticket.mk (some i))
    holder := if t.stage.inside && !stage.inside then none else s.holder }

/-- The call ends. -/
def leave (i : ℕ) (t : StoreTask) (stage : Stage) : Store := s.go i t stage none

/-- The body of the transaction raises: ROLLBACK. -/
def cleanUp (i : ℕ) (t : StoreTask) (row : EventRow) (attempt : ℕ) (cause : Cause) : Store :=
  s.go i t (.writing row attempt (.cleaning cause)) (some .rollback)

/-- What a call returns after its commit. -/
def finalStage : StoreCall → EventRow → Stage
  | .claim .., row => .claimed row.runId true
  | _, row => .returned row

/-- The callbacks from the `k`-th on. -/
def publish (i : ℕ) (t : StoreTask) (row : EventRow) (k : ℕ) : Store :=
  if k < s.callbacks then
    { s.leave i t (.publishing row k) with published := s.published ++ [(k, row)] }
  else s.leave i t (finalStage t.call row)

/-- The look-up before a write has been answered, or a read has. -/
def checked (i : ℕ) (t : StoreTask) : SqlResult → Store
  | .cursor a => s.go i t .checking (some (.fetch a))
  | .answer a => match t.call, a with
      | .append _, .event (some row) => s.leave i t (.returned row)
      | .append d, .event none => (s.cacheColumns (s.rowFor d)).leave i t (.queued (s.rowFor d))
      | .claim .., .claim (some c) => s.leave i t (.claimed c.runId false)
      | .claim c payload workspaceId, .claim none =>
          s.leave i t (.queued (c.runStarted payload workspaceId))
      | .read _, a => s.leave i t (.answered a)
      | _, _ => s.leave i t .raised
  | _ => s.leave i t .raised

/-- The first statement in the transaction. -/
def enterBody (i : ℕ) (t : StoreTask) (row : EventRow) (attempt : ℕ) : Store :=
  match t.call with
  | .claim c .. => s.go i t (.writing row attempt .claiming) (some (.insertClaim c))
  | _ => s.go i t (.writing row attempt .numbering) (some (.select (.nextSeq row.runId)))

/-- The transaction is closed again: the `except` clauses of the callers. -/
def cleanedUp (i : ℕ) (t : StoreTask) (row : EventRow) (attempt : ℕ) (cause : Cause) : Store :=
  match t.call, cause with
  | .append d, .duplicateKey => match d.idempotencyKey with
      | some key =>
          s.go i t (.writing row attempt .rechecking)
            (some (.select (.byKey d.runId d.eventType key)))
      | none => s.leave i t .raised
  | .append d, .duplicate =>
      if attempt < d.maxRetries then
        s.go i t (.writing row (attempt + 1) (.beginning false)) (some .begin)
      else s.leave i t .raised
  | .claim c .., .duplicateKey | .claim c .., .duplicate =>
      s.go i t .rereading
        (some (.select (.byRequest c.tenantId c.conversationId c.clientRequestId)))
  | _, _ => s.leave i t .raised

/-- The transaction is committed. -/
def committedTxn (i : ℕ) (t : StoreTask) (row : EventRow) : Store :=
  match t.call with
  | .claim c _ workspaceId => (s.cacheClaim c workspaceId).publish i t row 0
  | _ => s.publish i t row 0

/-- A writer goes on with what its statement returned. -/
def written (i : ℕ) (t : StoreTask) (row : EventRow) (attempt : ℕ) : TxnPc → SqlResult → Store
  | .beginning _, .done => s.enterBody i t row attempt
  | .beginning false, .nested => s.go i t (.writing row attempt .recovering) (some .rollback)
  | .recovering, .done => s.go i t (.writing row attempt (.beginning true)) (some .begin)
  | .numbering, .cursor a => s.go i t (.writing row attempt .numbering) (some (.fetch a))
  | .numbering, .answer (.seq n) =>
      s.go i t (.writing { row with seq := n } attempt .inserting)
        (some (.insertEvent { row with seq := n }))
  | .claiming, .done => s.go i t (.writing row attempt .inserting) (some (.insertEvent row))
  | .claiming, .duplicate | .inserting, .duplicate => s.cleanUp i t row attempt .duplicate
  | .inserting, .duplicateKey => s.cleanUp i t row attempt .duplicateKey
  | .inserting, .done => s.go i t (.writing row attempt .committing) (some .commit)
  | .committing, .done => s.committedTxn i t row
  | .cleaning cause, _ => s.cleanedUp i t row attempt cause
  | .rechecking, .cursor a => s.go i t (.writing row attempt .rechecking) (some (.fetch a))
  | .rechecking, .answer (.event (some row')) => s.leave i t (.returned row')
  | .rechecking, _ => s.leave i t .raised
  | _, _ => s.cleanUp i t row attempt .error

/-- The look-up of a refused claim has been answered. -/
def reread (i : ℕ) (t : StoreTask) : SqlResult → Store
  | .cursor a => s.go i t .rereading (some (.fetch a))
  | .answer (.claim (some c)) => s.leave i t (.claimed c.runId false)
  | _ => s.leave i t .raised

/-- A call goes on with what its statement returned. -/
def advance (i : ℕ) (t : StoreTask) (r : SqlResult) : Option Store :=
  match t.stage with
  | .checking => some (s.checked i t r)
  | .writing row attempt pc => some (s.written i t row attempt pc r)
  | .rereading => some (s.reread i t r)
  | _ => none

/-- CancelledError is raised where the call waits. -/
def cancelTask (i : ℕ) (t : StoreTask) : Option Store :=
  let s' := { s with queue := disown i s.queue }
  match t.stage with
  | .checking | .queued _ | .rereading | .publishing .. | .writing _ _ (.cleaning _)
  | .writing _ _ .rechecking => some (s'.leave i t .raised)
  | .writing row attempt _ => some (s'.cleanUp i t row attempt .error)
  | _ => none

/-- A call begins. -/
def begin (call : StoreCall) : Store :=
  let i := s.tasks.length
  let t : StoreTask := { call := call, stage := .checking }
  let s' := { s with tasks := s.tasks ++ [t] }
  match call with
  | .append d => match d.idempotencyKey with
      | some key => s'.go i t .checking (some (.select (.byKey d.runId d.eventType key)))
      | none => (s'.cacheColumns (s.rowFor d)).leave i t (.queued (s.rowFor d))
  | .claim c .. =>
      s'.go i t .checking
        (some (.select (.byRequest c.tenantId c.conversationId c.clientRequestId)))
  | .read q => s'.go i t .checking (some (.select q))

/-- The result of a statement reaches the call that waits for it. -/
def deliver (owner : Option ℕ) (r : SqlResult) : Store :=
  match owner with
  | none => s
  | some i => { s with tasks := s.tasks.modify i fun t => { t with mail := some r } }

/-- The worker executes the first statement of the queue. -/
def serve (e : Ticket SqlOp) (rest : List (Ticket SqlOp)) (f : Fault) : Store :=
  ({ s with db := (s.db.execWith e.op f).1, queue := rest } : Store).deliver e.owner
    (s.db.execWith e.op f).2

end Store

/-- What happens next. -/
inductive StoreMove where
  | call (c : StoreCall)
  /-- The worker executes a statement. -/
  | execute (f : Fault)
  /-- A call goes on with the result of its statement. -/
  | resume (i : ℕ)
  /-- A waiting call gets the lock. -/
  | acquire (i : ℕ)
  /-- A callback returns. -/
  | called (i : ℕ)
  | cancel (i : ℕ)

/-- The next state, when the move is possible. -/
def storeStep (s : Store) : StoreMove → Option Store
  | .call c => some (s.begin c)
  | .execute f => match s.queue with
      | [] => none
      | e :: rest => some (s.serve e rest f)
  | .resume i => s.tasks[i]?.bind fun t => t.mail.bind fun r => s.advance i t r
  | .acquire i => s.tasks[i]?.bind fun t => match t.stage, s.holder with
      | .queued row, none =>
          some { s.go i t (.writing row 0 (.beginning false)) (some .begin) with holder := some i }
      | _, _ => none
  | .called i => s.tasks[i]?.bind fun t => match t.stage with
      | .publishing row k => some (s.publish i t row (k + 1))
      | _ => none
  | .cancel i => s.tasks[i]?.bind fun t => s.cancelTask i t

end JAgent
