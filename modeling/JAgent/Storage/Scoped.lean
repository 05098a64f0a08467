import Mathlib.Data.String.Basic
import JAgent.Storage.EventStore

/-! # The store of one tenant

`ScopedEventStore` fixes a tenant and forwards to the shared `EventStore`.  The wrappers keep the
tenants apart in three ways: some pass the tenant on to a SQL clause, some filter what the raw
store returns by the tenant of each event, some look first whether the row is the tenant's.  Here
are the tables with their times, the methods of the raw store as far as the wrappers use them, and
the wrappers, one operation after the other.  `execute_query`, which rewrites SQL text, is in a
module of its own.

`event_from_row` takes the tenant of an event from the column of the row; a row of a query that does
not select the column counts as one of the tenant "default". -/

namespace JAgent
open Lib

/-! ### The tables -/

/-- A row of `events` with its time. -/
structure LogRow extends EventRow where
  createdAt : ℕ
deriving DecidableEq

/-- `Event`. -/
structure StoredEvent where
  runId : String
  seq : ℕ
  eventType : EventType
  payload : Obj
  idempotencyKey : Option String := none
  createdAt : ℕ
  tenantId : String := "default"
  workspaceId : Option String := none
  isAudit : Bool := false
deriving DecidableEq

/-- A row of `conversations`. -/
structure ConversationRow where
  conversationId : String
  tenantId : String := "default"
  userId : String := "default"
  title : String := ""
  status : String := "active"
  createdAt : ℕ
  updatedAt : ℕ
  messageCount : ℕ := 0
deriving DecidableEq

inductive WorkspaceStatus where
  | active | deleted
deriving DecidableEq

/-- A row of `workspaces`; the scope is its JSON. -/
structure WorkspaceRow where
  workspaceId : String
  tenantId : String
  name : String
  description : String := ""
  scope : Obj
  status : WorkspaceStatus := .active
  createdAt : ℕ
  updatedAt : ℕ
deriving DecidableEq

/-- `WorkspaceUpdate`: each field is unset, or set to a value or to None. -/
structure WorkspaceUpdate where
  name : Option (Option String) := none
  description : Option (Option String) := none
  scope : Option (Option Obj) := none
deriving DecidableEq

/-- A row of `tenants`; the status is never written. -/
structure TenantRow where
  tenantId : String
  name : String := ""
  createdAt : ℕ
  updatedAt : ℕ
deriving DecidableEq

/-- A row of `list_runs`. -/
structure RunSummary where
  runId : String
  seq : ℕ
  createdAt : ℕ
  updatedAt : ℕ
  eventCount : ℕ
  workspaceId : Option String
deriving DecidableEq

/-- The tables and the caches of the raw store. -/
structure TenantDb where
  events : List LogRow := []
  claims : List ClaimRow := []
  conversations : List ConversationRow := []
  workspaces : List WorkspaceRow := []
  tenants : List TenantRow := []
  runToConv : Dict String String := .empty
  runToWorkspace : Dict String String := .empty

/-- `event_from_row` on `SELECT *`. -/
def eventFromRow (row : LogRow) : StoredEvent :=
  { runId := row.runId
    seq := row.seq
    eventType := row.eventType
    payload := row.payload
    idempotencyKey := row.idempotencyKey
    createdAt := row.createdAt
    tenantId := row.tenantId
    workspaceId := row.workspaceId
    isAudit := row.isAudit }

/-- `event_from_row` on the columns that `get_events_for_conversation` selects. -/
def eventFromColumns (row : LogRow) : StoredEvent :=
  { runId := row.runId
    seq := row.seq
    eventType := row.eventType
    payload := row.payload
    idempotencyKey := row.idempotencyKey
    createdAt := row.createdAt }

/-- A clause ` AND column = ?` that is only there with a value. -/
def clause (value : Option String) (column : String) : Bool := value.all (· = column)

/-- LIMIT and OFFSET; a negative limit is none. -/
def page {α : Type} (limit offset : ℤ) (rows : List α) : List α :=
  if limit < 0 then rows.drop offset.toNat else (rows.drop offset.toNat).take limit.toNat

/-- UPDATE. -/
def updateWhere {α : Type} (p : α → Bool) (f : α → α) (rows : List α) : List α :=
  rows.map fun x => if p x then f x else x

/-! ### The raw store -/

namespace TenantDb
variable (db : TenantDb)

/-- `events` and `client_request_claims` without the times. -/
def tables : Tables := { events := db.events.map (·.toEventRow), claims := db.claims }

def getEvents (runId : String) : List StoredEvent :=
  ((db.events.filter (·.runId = runId)).mergeSort (·.seq ≤ ·.seq)).map eventFromRow

def getEventRange (runId : String) (fromSeq : ℤ) (toSeq : Option ℤ) : List StoredEvent :=
  ((db.events.filter fun row => row.runId = runId && fromSeq ≤ row.seq &&
    toSeq.all fun n => (row.seq : ℤ) ≤ n).mergeSort (·.seq ≤ ·.seq)).map eventFromRow

def getEventsForRuns (runIds : List String) (tenantId : Option String) : List StoredEvent :=
  if runIds.isEmpty then []
  else ((db.events.filter fun row => row.runId ∈ runIds && clause tenantId row.tenantId).mergeSort
    fun a b => a.runId < b.runId || (a.runId = b.runId && a.seq ≤ b.seq)).map eventFromRow

def getWorkspaceEvents (workspaceId : String) (tenantId : Option String) : List StoredEvent :=
  ((db.events.filter fun row => row.workspaceId = some workspaceId && row.isAudit &&
    clause tenantId row.tenantId).mergeSort
    fun a b => a.createdAt < b.createdAt || (a.createdAt = b.createdAt && a.seq ≤ b.seq)).map
    eventFromRow

/-- The rows of run streams: neither conversation-level nor audit. -/
def runRows (tenantId workspaceId : Option String) : List LogRow :=
  db.events.filter fun row => row.conversationId ≠ some row.runId && !row.isAudit &&
    clause tenantId row.tenantId && workspaceId.all fun w => row.workspaceId = some w

/-- The ids of some rows, each once. -/
def runIds (rows : List LogRow) : List String := (rows.map (·.runId)).dedup

/-- GROUP BY run_id. -/
def summarize (rows : List LogRow) (runId : String) : RunSummary :=
  let group := rows.filter (·.runId = runId)
  { runId := runId
    seq := (group.map (·.seq)).min?.getD 0
    createdAt := (group.map (·.createdAt)).min?.getD 0
    updatedAt := (group.map (·.createdAt)).max?.getD 0
    eventCount := group.length
    workspaceId := (group.filterMap (·.workspaceId)).max? }

def listRuns (limit offset : ℤ) (tenantId workspaceId : Option String) : List RunSummary :=
  let rows := db.runRows tenantId workspaceId
  page limit offset (((runIds rows).map (summarize rows)).mergeSort fun a b =>
    b.updatedAt ≤ a.updatedAt)

def totalRunCount (tenantId workspaceId : Option String) : ℕ :=
  (runIds (db.runRows tenantId workspaceId)).length

def listAllRunIds (tenantId : Option String) : List String := runIds (db.runRows tenantId none)

def findByIdempotencyKey (runId : String) (eventType : EventType) (key : String) :
    Option StoredEvent :=
  (db.events.find? (·.hasKey runId eventType key)).map eventFromRow

/-- The row receives this confirmation. -/
def isReceipt (runId confirmationId : String) (row : LogRow) : Bool :=
  row.runId = runId && row.eventType = .confirmation &&
    row.payload.get? "confirmation_id" = some (.str confirmationId) &&
    row.payload.get? "phase" = some (.str "received")

def findConfirmationById (runId confirmationId : String) : Option StoredEvent :=
  (db.events.find? (isReceipt runId confirmationId)).map eventFromRow

/-- The next `seq` of a run. -/
def nextSeq (runId : String) : ℕ := ((db.tables.rowsOf runId).map (·.seq)).max?.getD 0 + 1

/-- The row that `append_event` inserts. -/
def rowFor (d : EventDraft) (now : ℕ) : LogRow :=
  { runId := d.runId
    tenantId := d.tenantId
    workspaceId := d.workspaceId.or (db.runToWorkspace.get? d.runId)
    seq := db.nextSeq d.runId
    eventType := d.eventType
    payload := d.payload
    idempotencyKey := d.idempotencyKey
    conversationId :=
      ((d.payload.get? "conversation_id").bind Value.asStr?).or (db.runToConv.get? d.runId)
    isAudit := d.isAudit
    createdAt := now }

/-- The caches after an append. -/
def cacheColumns (row : LogRow) : TenantDb :=
  { db with
    runToConv := match row.conversationId, db.runToConv.get? row.runId with
      | some c, none => db.runToConv.set row.runId c
      | _, _ => db.runToConv
    runToWorkspace := match row.workspaceId, db.runToWorkspace.get? row.runId with
      | some w, none => db.runToWorkspace.set row.runId w
      | _, _ => db.runToWorkspace }

/-- `append_event` without a concurrent writer: after the look-up no constraint refuses the row. -/
def appendEvent (d : EventDraft) (now : ℕ) : TenantDb × StoredEvent :=
  match d.idempotencyKey.bind (db.findByIdempotencyKey d.runId d.eventType) with
  | some existing => (db, existing)
  | none =>
      let row := db.rowFor d now
      ({ db.cacheColumns row with events := db.events ++ [row] }, eventFromRow row)

/-- `claim_client_request` without a concurrent writer; `none` when it raises. -/
def claimClientRequest (c : ClaimRow) (payload : Obj) (workspaceId : Option String) (now : ℕ) :
    TenantDb × Option (String × Bool) :=
  match db.claims.find? (·.isFor c.tenantId c.conversationId c.clientRequestId) with
  | some existing => (db, some (existing.runId, false))
  | none =>
      let row : LogRow := { toEventRow := c.runStarted payload workspaceId, createdAt := now }
      if db.tables.clashesOnKey row.toEventRow || db.tables.clashesOnSeq row.toEventRow then (db, none)
      else
        ({ db with
          events := db.events ++ [row]
          claims := db.claims ++ [c]
          runToConv := db.runToConv.set c.runId c.conversationId
          runToWorkspace := match workspaceId with
            | some w => db.runToWorkspace.set c.runId w
            | none => db.runToWorkspace }, some (c.runId, true))

/-- The row is of the conversation, by its column or as a conversation-level event. -/
def ofConversation (conversationId : String) (row : LogRow) : Bool :=
  row.conversationId = some conversationId || row.runId = conversationId

def getEventsForConversation (conversationId : String) : List StoredEvent :=
  ((db.events.filter (ofConversation conversationId)).mergeSort
    fun a b => a.createdAt < b.createdAt || (a.createdAt = b.createdAt && a.seq ≤ b.seq)).map
    eventFromColumns

def getConversation (conversationId : String) : Option ConversationRow :=
  db.conversations.find? (·.conversationId = conversationId)

/-- An UPDATE of a conversation. -/
def setConversation (conversationId : String) (f : ConversationRow → ConversationRow) : TenantDb :=
  { db with conversations := updateWhere (·.conversationId = conversationId) f db.conversations }

def upsertConversation (conversationId title userId tenantId : String) (now : ℕ) : TenantDb :=
  if db.conversations.any (·.conversationId = conversationId) then
    db.setConversation conversationId fun c => { c with title := title, updatedAt := now }
  else
    { db with conversations := db.conversations ++
        [{ conversationId := conversationId, tenantId := tenantId, userId := userId, title := title,
           createdAt := now, updatedAt := now }] }

def deleteConversation (conversationId : String) (now : ℕ) : TenantDb :=
  db.setConversation conversationId fun c => { c with status := "archived", updatedAt := now }

def updateConversation (conversationId : String) (title status : Option String) (now : ℕ) :
    TenantDb × Bool :=
  (db.setConversation conversationId fun c =>
      { c with title := title.getD c.title, status := status.getD c.status, updatedAt := now },
    db.conversations.any (·.conversationId = conversationId))

def incrementMessageCount (conversationId : String) (now : ℕ) : TenantDb :=
  db.setConversation conversationId fun c =>
    { c with messageCount := c.messageCount + 1, updatedAt := now }

/-- The active conversations; an empty user is none. -/
def activeConversations (userId tenantId : Option String) : List ConversationRow :=
  db.conversations.filter fun c => c.status = "active" &&
    userId.all (fun u => u = "" || u = c.userId) && clause tenantId c.tenantId

def listConversations (limit offset : ℤ) (userId tenantId : Option String) : List ConversationRow :=
  page limit offset ((db.activeConversations userId tenantId).mergeSort fun a b =>
    b.updatedAt ≤ a.updatedAt)

def totalConversationCount (userId tenantId : Option String) : ℕ :=
  (db.activeConversations userId tenantId).length

def getWorkspace (workspaceId : String) : Option WorkspaceRow :=
  db.workspaces.find? (·.workspaceId = workspaceId)

def listWorkspaces (tenantId : Option String) : List WorkspaceRow :=
  (db.workspaces.filter fun w => clause tenantId w.tenantId && w.status = .active).mergeSort
    (·.createdAt ≤ ·.createdAt)

/-- `create_workspace`; `none` when it raises. -/
def createWorkspace (w : WorkspaceRow) : TenantDb × Option WorkspaceRow :=
  if db.workspaces.any fun x =>
      x.workspaceId = w.workspaceId || (x.tenantId = w.tenantId && x.name = w.name) then
    (db, (db.getWorkspace w.workspaceId).filter (·.tenantId = w.tenantId))
  else ({ db with workspaces := db.workspaces ++ [w] }, some w)

/-- An UPDATE of a workspace. -/
def setWorkspace (workspaceId : String) (f : WorkspaceRow → WorkspaceRow) : TenantDb :=
  { db with workspaces := updateWhere (·.workspaceId = workspaceId) f db.workspaces }

/-- The workspace with the fields that are set; `none` when one is set to None. -/
def updated (w : WorkspaceRow) (u : WorkspaceUpdate) (now : ℕ) : Option WorkspaceRow := do
  let name ← u.name.getD (some w.name)
  let description ← u.description.getD (some w.description)
  let scope ← u.scope.getD (some w.scope)
  pure { w with name := name, description := description, scope := scope, updatedAt := now }

end TenantDb

/-! ### The wrappers -/

/-- The methods of `ScopedEventStore`. -/
inductive ScopedOp where
  | appendEvent (d : EventDraft)
  | claimClientRequest (conversationId clientRequestId runId : String) (payload : Obj)
      (workspaceId : Option String)
  | getEvents (runId : String)
  | getEventRange (runId : String) (fromSeq : ℤ) (toSeq : Option ℤ)
  | getEventsForRuns (runIds : List String)
  | getWorkspaceEvents (workspaceId : String)
  | listRuns (limit offset : ℤ) (workspaceId : Option String)
  | totalRunCount (workspaceId : Option String)
  | listAllRunIds
  | findByIdempotencyKey (runId : String) (eventType : EventType) (key : String)
  | findConfirmationById (runId confirmationId : String)
  | getConversation (conversationId : String)
  | deleteConversation (conversationId : String)
  | updateConversation (conversationId : String) (title status : Option String)
  | listConversations (limit offset : ℤ) (userId : Option String)
  | totalConversationCount (userId : Option String)
  | upsertConversation (conversationId title userId : String)
  | getEventsForConversation (conversationId : String)
  | incrementMessageCount (conversationId : String)
  | getWorkspace (workspaceId : String)
  | listWorkspaces
  | createWorkspace (w : WorkspaceRow)
  | updateWorkspace (workspaceId : String) (u : WorkspaceUpdate)
  | deleteWorkspace (workspaceId : String)
  | ensureTenant
  | getLatestSeq (runId : String)
  | evictRunCaches (runId : String)

/-- Why a method raises. -/
inductive ScopedError where
  /-- "workspace tenant does not match scoped tenant" -/
  | foreignWorkspace
  /-- "scoped tenant mismatch on workspace create" -/
  | foreignResult
  /-- sqlite3.IntegrityError -/
  | integrity
  /-- A field of the workspace is set to None. -/
  | validation
deriving DecidableEq

/-- What a method returns. -/
inductive ScopedAnswer where
  | event (e : Option StoredEvent)
  | events (es : List StoredEvent)
  | claimed (runId : String) (created : Bool)
  | runs (rs : List RunSummary)
  | runIds (ids : List String)
  | number (n : ℕ)
  | conversation (c : Option ConversationRow)
  | conversations (cs : List ConversationRow)
  | workspace (w : Option WorkspaceRow)
  | workspaces (ws : List WorkspaceRow)
  | tenant (t : TenantRow)
  | flag (b : Bool)
  | done
  | raised (e : ScopedError)

namespace TenantDb
variable (db : TenantDb) (t : String) (now : ℕ)

/-- `get_conversation` of the scoped store. -/
def ownConversation (conversationId : String) : Option ConversationRow :=
  (db.getConversation conversationId).filter (·.tenantId = t)

/-- `get_workspace` of the scoped store. -/
def ownWorkspace (workspaceId : String) : Option WorkspaceRow :=
  (db.getWorkspace workspaceId).filter (·.tenantId = t)

/-- `get_events` of the scoped store. -/
def ownEvents (runId : String) : List StoredEvent := (db.getEvents runId).filter (·.tenantId = t)

/-- `update_workspace` of the scoped store. -/
def scopedUpdate (workspaceId : String) (u : WorkspaceUpdate) : TenantDb × ScopedAnswer :=
  match db.ownWorkspace t workspaceId with
  | none => (db, .workspace none)
  | some w => match updated w u now with
      | none => (db, .raised .validation)
      | some w' =>
          -- UNIQUE (tenant_id, name)
          if db.workspaces.any fun x => x.workspaceId ≠ workspaceId && x.tenantId = w'.tenantId &&
              x.name = w'.name then (db, .raised .integrity)
          else
            (db.setWorkspace workspaceId fun x =>
              { x with name := w'.name, description := w'.description, scope := w'.scope,
                       updatedAt := now }, .workspace (some w'))

/-- `ensure_tenant`. -/
def scopedTenant : TenantDb × ScopedAnswer :=
  ({ db with tenants :=
      if db.tenants.any (·.tenantId = t) then
        updateWhere (·.tenantId = t) (fun x => { x with updatedAt := now }) db.tenants
      else db.tenants ++ [{ tenantId := t, createdAt := now, updatedAt := now }] },
    .tenant { tenantId := t, createdAt := now, updatedAt := now })

/-- A method of the store of tenant `t`, at a time. -/
def invoke : ScopedOp → TenantDb × ScopedAnswer
  | .appendEvent d =>
      let r := db.appendEvent { d with tenantId := t } now
      (r.1, .event (some r.2))
  | .claimClientRequest conversationId clientRequestId runId payload workspaceId =>
      let r := db.claimClientRequest ⟨t, conversationId, clientRequestId, runId⟩ payload workspaceId now
      (r.1, r.2.elim (.raised .integrity) fun x => .claimed x.1 x.2)
  | .getEvents runId => (db, .events (db.ownEvents t runId))
  | .getEventRange runId fromSeq toSeq =>
      (db, .events ((db.getEventRange runId fromSeq toSeq).filter (·.tenantId = t)))
  | .getEventsForRuns runIds => (db, .events (db.getEventsForRuns runIds (some t)))
  | .getWorkspaceEvents workspaceId =>
      (db, .events (if (db.ownWorkspace t workspaceId).isNone then []
        else db.getWorkspaceEvents workspaceId (some t)))
  | .listRuns limit offset workspaceId =>
      (db, .runs (db.listRuns limit offset (some t) workspaceId))
  | .totalRunCount workspaceId => (db, .number (db.totalRunCount (some t) workspaceId))
  | .listAllRunIds => (db, .runIds (db.listAllRunIds (some t)))
  | .findByIdempotencyKey runId eventType key =>
      (db, .event ((db.findByIdempotencyKey runId eventType key).filter (·.tenantId = t)))
  | .findConfirmationById runId confirmationId =>
      (db, .event ((db.findConfirmationById runId confirmationId).filter (·.tenantId = t)))
  | .getConversation conversationId => (db, .conversation (db.ownConversation t conversationId))
  | .deleteConversation conversationId =>
      (if (db.ownConversation t conversationId).isSome then db.deleteConversation conversationId now
        else db, .done)
  | .updateConversation conversationId title status =>
      if (db.ownConversation t conversationId).isNone then (db, .flag false)
      else
        let r := db.updateConversation conversationId title status now
        (r.1, .flag r.2)
  | .listConversations limit offset userId =>
      (db, .conversations (db.listConversations limit offset userId (some t)))
  | .totalConversationCount userId => (db, .number (db.totalConversationCount userId (some t)))
  | .upsertConversation conversationId title userId =>
      (db.upsertConversation conversationId title userId t now, .done)
  | .getEventsForConversation conversationId =>
      (db, .events ((db.getEventsForConversation conversationId).filter (·.tenantId = t)))
  | .incrementMessageCount conversationId =>
      (if (db.ownConversation t conversationId).isSome then
        db.incrementMessageCount conversationId now else db, .done)
  | .getWorkspace workspaceId => (db, .workspace (db.ownWorkspace t workspaceId))
  | .listWorkspaces => (db, .workspaces (db.listWorkspaces (some t)))
  | .createWorkspace w =>
      if w.tenantId ≠ t then (db, .raised .foreignWorkspace)
      else
        let r := db.createWorkspace w
        (r.1, match r.2 with
          | none => .raised .integrity
          | some x => if x.tenantId ≠ t then .raised .foreignResult else .workspace (some x))
  | .updateWorkspace workspaceId u => db.scopedUpdate t now workspaceId u
  | .deleteWorkspace workspaceId => match db.ownWorkspace t workspaceId with
      | none => (db, .workspace none)
      | some w =>
          (db.setWorkspace workspaceId fun x => { x with status := .deleted, updatedAt := now },
            .workspace (some { w with status := .deleted, updatedAt := now }))
  | .ensureTenant => db.scopedTenant t now
  | .getLatestSeq runId => (db, .number (((db.ownEvents t runId).map (·.seq)).max?.getD 0))
  | .evictRunCaches runId =>
      ({ db with runToConv := db.runToConv.pop runId
                 runToWorkspace := db.runToWorkspace.pop runId }, .done)

end TenantDb

/-- A history: a tenant, which is not empty, calls a method at a time. -/
def scopedStep (db : TenantDb) (m : String × ScopedOp × ℕ) : Option TenantDb :=
  if m.1 = "" then none else some (db.invoke m.1 m.2.2 m.2.1).1

end JAgent
