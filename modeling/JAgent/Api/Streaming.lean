import JAgent.Lib.Dict
import JAgent.Lib.Queue
import JAgent.Lib.System
import JAgent.Storage.EventStore

/-! # Streaming events to a client

A client of a run connects a WebSocket.  The handler (`ws_events`) reads the events of the run that are
there, accepts the connection, registers the socket and then sends the events it has read; the callback
of the store (`broadcast_event`) goes through the registered sockets with each event that is appended.
The client keeps an event when its number is above the highest it has seen (`useRunWebSocket`), also
across connections.

Between the snapshot and the registration an event can be appended and broadcast: it is in neither, and
once the next one has arrived the client has a gap for good (`event_is_never_kept`).  A broadcast can
also be written to the socket before the snapshot has been sent, or before the broadcast of an earlier
event, or skip a client when the list it walks through shrinks.  A client that is never sent an event
ahead of an earlier one has no gap (`kept_without_gaps`). -/

namespace JAgent
open Lib

/-! ### The server -/

/-- What is written to a socket. -/
inductive WireMsg where
  | event (row : EventRow)
  | pong
deriving DecidableEq

def WireMsg.row? : WireMsg → Option EventRow
  | .event row => some row
  | .pong => none

/-- Where the handler of a socket stands. -/
inductive HandlerPhase where
  /-- The events have been read, and the connection is being accepted. -/
  | accepting (events : List EventRow)
  /-- The socket is registered in a list of clients; the events are still to be sent. -/
  | serving (clients : ℕ) (events : List EventRow)
  | closed
deriving DecidableEq

/-- A socket, with what has been written to it and not yet received. -/
structure WebSocket where
  tenantId : String
  phase : HandlerPhase
  wire : List WireMsg := []
deriving DecidableEq

/-- An invocation of `broadcast_event`: the event, the list it walks through, the position of the next
client and the clients that could not be reached. -/
structure Broadcast where
  row : EventRow
  clients : Option ℕ
  next : ℕ := 0
  stale : List ℕ := []
deriving DecidableEq

/-- The state of `useRunWebSocket`. -/
structure WsClient where
  tenantId : String
  socket : Option ℕ := none
  lastSeq : ℕ := 0
  kept : List EventRow := []
deriving DecidableEq

/-- The events of a run with the sockets and broadcasts for it, and one client.  Sockets and lists of
clients are named by their position; `entry` is the list in `_ws_clients`, and `pending` are the events
whose callback has not been invoked yet. -/
structure EventStream where
  runId : String
  log : List EventRow := []
  pending : List EventRow := []
  lists : List (List ℕ) := []
  entry : Option ℕ := none
  tenants : Dict ℕ String := .empty
  sockets : List WebSocket := []
  broadcasts : List Broadcast := []
  client : WsClient

namespace WsClient

/-- `onmessage`: an event is kept when its number is above the last. -/
def onMessage (c : WsClient) : WireMsg → WsClient
  | .pong => c
  | .event row => if row.seq ≤ c.lastSeq then c else { c with lastSeq := row.seq, kept := c.kept ++ [row] }

end WsClient

namespace EventStream
variable (s : EventStream)

/-- The events of the run that a tenant sees. -/
def getEvents (tenantId : String) : List EventRow := s.log.filter fun row => row.tenantId = tenantId

/-- A handler starts: it reads the events, and closes when there are none. -/
def opened (tenantId : String) : List WebSocket :=
  s.sockets ++ [{ tenantId, phase := if (s.getEvents tenantId).isEmpty then .closed
                                     else .accepting (s.getEvents tenantId) }]

/-- The rest of a handler's `finally` once its socket is taken out of its list. -/
def leaveList (i k : ℕ) : EventStream :=
  let lists := s.lists.modify k (·.filter (· ≠ i))
  { s with lists, entry := if lists[k]? = some [] then none else s.entry, tenants := s.tenants.pop i }

/-- The end of `broadcast_event`: the clients that could not be reached are taken out. -/
def dropStale (b : Broadcast) : EventStream :=
  { s with
    lists := match b.clients with
      | some k => s.lists.modify k (·.filter fun i => !b.stale.contains i)
      | none => s.lists
    tenants := s.tenants.popMany b.stale }

/-- The client a broadcast comes to next. -/
def target (b : Broadcast) : Option ℕ :=
  (b.clients.bind fun k => s.lists[k]?).bind fun clients => clients[b.next]?

/-- The client is one of the event's tenant. -/
def addressed (b : Broadcast) (i : ℕ) : Bool := (s.tenants.get? i).getD "default" = b.row.tenantId

end EventStream

/-- Write to a socket. -/
def WebSocket.write (m : WireMsg) (w : WebSocket) : WebSocket := { w with wire := w.wire ++ [m] }

inductive StreamMove where
  /-- An event is committed. -/
  | append (row : EventRow)
  /-- The callback of the store is invoked with a committed event. -/
  | announce (n : ℕ)
  /-- A broadcast goes on; the next client is reached or not. -/
  | send (j : ℕ) (reached : Bool)
  /-- The client connects; others do. -/
  | connect
  | visit (tenantId : String)
  /-- The connection is accepted, and the socket is registered. -/
  | register (i : ℕ)
  /-- The next of the events that were read is sent. -/
  | replay (i : ℕ)
  | ping (i : ℕ)
  /-- The handler ends. -/
  | leave (i : ℕ)
  /-- The client receives a message. -/
  | receive
  /-- The client loses or closes its socket. -/
  | disconnect
  /-- The client turns to another run and back. -/
  | reset

/-- One move of the stream. -/
def streamStep (s : EventStream) : StreamMove → Option EventStream
  | .append row =>
      let row := { row with runId := s.runId, seq := s.log.length + 1 }
      some { s with log := s.log ++ [row], pending := s.pending ++ [row] }
  | .announce n => (s.pending[n]?).map fun row =>
      { s with pending := s.pending.eraseIdx n, broadcasts := s.broadcasts ++ [{ row, clients := s.entry }] }
  | .send j reached => (s.broadcasts[j]?).map fun b => match s.target b with
      | none => { s.dropStale b with broadcasts := s.broadcasts.eraseIdx j }
      | some i =>
          let on : List ℕ → EventStream := fun stale =>
            { s with broadcasts := s.broadcasts.set j { b with next := b.next + 1, stale } }
          if !s.addressed b i then on b.stale
          else if reached then
            { on b.stale with sockets := s.sockets.modify i (·.write (.event b.row)) }
          else on (b.stale ++ [i])
  | .connect => some { s with
      sockets := s.opened s.client.tenantId, client := { s.client with socket := some s.sockets.length } }
  | .visit tenantId => some { s with sockets := s.opened tenantId }
  | .register i => (s.sockets[i]?).bind fun w => match w.phase with
      | .accepting events =>
          let k := s.entry.getD s.lists.length
          let lists := if s.entry.isSome then s.lists.modify k (· ++ [i]) else s.lists ++ [[i]]
          some { s with lists, entry := some k, tenants := s.tenants.set i w.tenantId
                        sockets := s.sockets.set i { w with phase := .serving k events } }
      | _ => none
  | .replay i => (s.sockets[i]?).bind fun w => match w.phase with
      | .serving k (row :: events) => some { s with
          sockets := s.sockets.set i ({ w with phase := .serving k events }.write (.event row)) }
      | _ => none
  | .ping i => (s.sockets[i]?).bind fun w => match w.phase with
      | .serving _ [] => some { s with sockets := s.sockets.set i (w.write .pong) }
      | _ => none
  | .leave i => (s.sockets[i]?).bind fun w => match w.phase with
      | .accepting _ => some { s with sockets := s.sockets.set i { w with phase := .closed } }
      | .serving k _ => some { s.leaveList i k with sockets := s.sockets.set i { w with phase := .closed } }
      | .closed => none
  | .receive => s.client.socket.bind fun i => (s.sockets[i]?).bind fun w => match w.wire with
      | [] => none
      | m :: rest => some { s with sockets := s.sockets.set i { w with wire := rest }
                                   client := s.client.onMessage m }
  | .disconnect => some { s with client := { s.client with socket := none } }
  | .reset => some { s with client := { tenantId := s.client.tenantId } }

/-! ### Gaps -/

/-- The client has kept every event that it sees up to the last number. -/
def EventStream.Gapless (s : EventStream) : Prop :=
  ∀ row ∈ s.log, row.tenantId = s.client.tenantId → row.seq ≤ s.client.lastSeq → row ∈ s.client.kept

def HandlerPhase.events : HandlerPhase → List EventRow
  | .accepting events | .serving _ events => events
  | .closed => []

/-- The events that are on their way. -/
def WebSocket.onWire (w : WebSocket) : List EventRow := w.wire.filterMap WireMsg.row?

/-- A broadcast that is written to the client's socket is not ahead of an earlier event: every event
with a smaller number that the client sees has been kept or is on its way. -/
def inOrder (s : EventStream) : StreamMove → Bool
  | .send j true => (s.broadcasts[j]?).all fun b => (s.target b).all fun i =>
      !(s.addressed b i && s.client.socket = some i) || (s.sockets[i]?).all fun w =>
        s.log.all fun row => row.tenantId ≠ s.client.tenantId || b.row.seq ≤ row.seq ||
          s.client.kept.contains row || w.onWire.contains row
  | _ => true

/-- What the client's socket still has for it: the events on their way, then those to be replayed. -/
def WebSocket.coming (w : WebSocket) : List EventRow := w.onWire ++ w.phase.events

def EventStream.coming (s : EventStream) : List EventRow :=
  (s.client.socket.bind fun i => s.sockets[i]?).elim [] WebSocket.coming

/-- A row of the log that the client sees has a smaller number. -/
def EventStream.Before (s : EventStream) (x e : EventRow) : Prop :=
  x ∈ s.log ∧ x.tenantId = s.client.tenantId ∧ x.seq < e.seq

/-- The rows on the server: the log is numbered, and what is announced is in it. -/
structure EventStream.Filed (s : EventStream) : Prop where
  numbered : s.log.Pairwise (·.seq < ·.seq)
  positive : ∀ row ∈ s.log, 0 < row.seq
  bounded : ∀ row ∈ s.log, row.seq ≤ s.log.length
  pending : ∀ row ∈ s.pending, row ∈ s.log
  broadcast : ∀ b ∈ s.broadcasts, b.row ∈ s.log
  connected : ∀ i, s.client.socket = some i → i < s.sockets.length

/-- The client has no gap, and what comes to it opens none. -/
structure EventStream.InStep (s : EventStream) : Prop where
  logged : ∀ row ∈ s.coming, row ∈ s.log
  seen : s.client.lastSeq ≤ s.log.length
  gapless : s.Gapless
  ordered : Ordered s.Before s.client.kept s.coming

/-- What a move does to the client and to what comes to it. -/
inductive ClientStep (s t : EventStream) : Prop
  | same : t.log = s.log → t.client = s.client → t.coming = s.coming → ClientStep s t
  /-- The log grows. -/
  | grown (row : EventRow) : t.log = s.log ++ [row] → row.seq = s.log.length + 1 →
      t.client = s.client → t.coming = s.coming → ClientStep s t
  /-- The client connects. -/
  | joined : t.log = s.log → t.client = { s.client with socket := t.client.socket } →
      t.coming = s.getEvents s.client.tenantId → ClientStep s t
  /-- The rest of what comes is cut off. -/
  | cut (q : List EventRow) : t.log = s.log → t.client = { s.client with socket := t.client.socket } →
      s.coming = t.coming ++ q → ClientStep s t
  /-- A broadcast is put in before the events that are still to be replayed. -/
  | inserted (row : EventRow) (p q : List EventRow) : t.log = s.log → t.client = s.client →
      s.coming = p ++ q → t.coming = p ++ row :: q → row ∈ s.log →
      (∀ x, s.Before x row → x ∈ s.client.kept ++ p) → ClientStep s t
  /-- The client receives an event. -/
  | took (row : EventRow) : t.log = s.log → t.client = s.client.onMessage (.event row) →
      s.coming = row :: t.coming → ClientStep s t
  /-- The client starts over. -/
  | forgot : t.log = s.log → t.client = { tenantId := s.client.tenantId } → t.coming = [] →
      ClientStep s t

section Coming
variable {s t : EventStream} {w : WebSocket} {i : ℕ}

theorem onWire_write_event (row : EventRow) : (w.write (.event row)).onWire = w.onWire ++ [row] := by
  simp [WebSocket.onWire, WebSocket.write, WireMsg.row?]

theorem onWire_write_pong : (w.write .pong).onWire = w.onWire := by
  simp [WebSocket.onWire, WebSocket.write, WireMsg.row?]

theorem coming_eq (h : s.client.socket = some i) (hw : s.sockets[i]? = some w) :
    s.coming = w.coming := by
  simp [EventStream.coming, h, hw]

theorem coming_congr (hc : t.client.socket = s.client.socket)
    (h : ∀ j, s.client.socket = some j → t.sockets[j]? = s.sockets[j]?) : t.coming = s.coming := by
  unfold EventStream.coming
  rw [hc]
  cases hsock : s.client.socket with
  | none => rfl
  | some j =>
      rw [Option.bind_some, Option.bind_some, h j hsock]

/-- A socket is replaced by one that has the same for the client. -/
theorem coming_set (hw : s.sockets[i]? = some w) {w' : WebSocket} (hsame : w'.coming = w.coming)
    (hc : t.client.socket = s.client.socket) (ht : t.sockets = s.sockets.set i w') :
    t.coming = s.coming := by
  unfold EventStream.coming
  rw [hc, ht]
  cases hsock : s.client.socket with
  | none => rfl
  | some j =>
      simp only [Option.bind_some, List.getElem?_set]
      split_ifs with hij hlt
      · subst hij
        simp [hw, hsame]
      · subst hij
        simp [hlt]
      · rfl

/-- A new socket of another client is not the client's. -/
theorem coming_opened (hconn : ∀ i, s.client.socket = some i → i < s.sockets.length) (tenantId : String) :
    ({ s with sockets := s.opened tenantId } : EventStream).coming = s.coming := by
  refine coming_congr rfl ?_
  intro i hsock
  exact List.getElem?_append_left (hconn i hsock)

theorem coming_closed (w : WebSocket) : ({ w with phase := .closed } : WebSocket).coming = w.onWire := by
  simp [WebSocket.coming, WebSocket.onWire, HandlerPhase.events]

/-- A handler ends, its own or the client's. -/
theorem clientStep_closed (hw : s.sockets[i]? = some w) (hlog : t.log = s.log)
    (hclient : t.client = s.client) (ht : t.sockets = s.sockets.set i { w with phase := .closed }) :
    ClientStep s t := by
  by_cases hmine : s.client.socket = some i
  · refine .cut w.phase.events hlog (by rw [hclient]) ?_
    have hlt : i < s.sockets.length := (List.getElem?_eq_some_iff.mp hw).1
    have hw' : t.sockets[i]? = some { w with phase := .closed } := by
      rw [ht, List.getElem?_set_self hlt]
    rw [coming_eq hmine hw, coming_eq (hclient ▸ hmine) hw', coming_closed]
    rfl
  · refine .same hlog hclient (coming_congr (by rw [hclient]) ?_)
    intro j hsock
    have hne : i ≠ j := fun h => hmine (h ▸ hsock)
    rw [ht, List.getElem?_set_ne hne]

/-- A broadcast is written to a socket. -/
theorem clientStep_written {b : Broadcast} (hlog : t.log = s.log) (hclient : t.client = s.client)
    (ht : t.sockets = s.sockets.modify i (·.write (.event b.row))) (hrow : b.row ∈ s.log)
    (hok : s.client.socket = some i → ∀ w, s.sockets[i]? = some w → ∀ x, s.Before x b.row →
      x ∈ s.client.kept ∨ x ∈ w.onWire) : ClientStep s t := by
  by_cases hmine : s.client.socket = some i
  · cases hw : s.sockets[i]? with
    | none =>
        refine .same hlog hclient ?_
        simp [EventStream.coming, hclient, hmine, ht, hw]
    | some w =>
        have hw' : t.sockets[i]? = some (w.write (.event b.row)) := by simp [ht, hw]
        refine .inserted b.row w.onWire w.phase.events hlog hclient (coming_eq hmine hw) ?_ hrow ?_
        · rw [coming_eq (hclient ▸ hmine) hw']
          unfold WebSocket.coming
          rw [onWire_write_event, List.append_assoc]
          rfl
        · intro x hx
          exact List.mem_append.mpr (hok hmine w hw x hx)
  · refine .same hlog hclient (coming_congr (by rw [hclient]) ?_)
    intro j hsock
    have hne : i ≠ j := fun h => hmine (h ▸ hsock)
    rw [ht, List.getElem?_modify]
    simp [hne]

theorem coming_connect (s : EventStream) :
    ({ s with sockets := s.opened s.client.tenantId
              client := { s.client with socket := some s.sockets.length } } : EventStream).coming =
      s.getEvents s.client.tenantId := by
  simp only [EventStream.coming, EventStream.opened, Option.bind_some, List.getElem?_concat_length,
    Option.elim_some, WebSocket.coming, WebSocket.onWire, List.filterMap_nil, List.nil_append]
  split_ifs with hempty
  · exact (List.isEmpty_iff.mp hempty).symm
  · rfl

theorem clientStep_of_step (hf : s.Filed) {m : StreamMove} (hok : inOrder s m = true)
    (hs : streamStep s m = some t) : ClientStep s t := by
  cases m with
  | append row =>
      cases hs
      exact .grown _ rfl rfl rfl rfl
  | announce n =>
      obtain ⟨row, -, rfl⟩ := Option.map_eq_some_iff.mp hs
      exact .same rfl rfl rfl
  | send j reached =>
      obtain ⟨b, hb, rfl⟩ := Option.map_eq_some_iff.mp hs
      cases htarget : s.target b with
      | none => exact .same rfl rfl rfl
      | some i =>
          dsimp only
          split_ifs with haddr hreached
          · exact .same rfl rfl rfl
          · refine clientStep_written rfl rfl rfl (hf.broadcast b (List.mem_of_getElem? hb)) ?_
            intro hmine w hw x hx
            have haddr : s.addressed b i = true := by simpa using haddr
            simp only [inOrder, hreached, hb, htarget, hw, Option.all_some, haddr, hmine, decide_true,
              Bool.and_self, Bool.not_true, Bool.false_or, List.all_eq_true] at hok
            simpa [hx.2.1, Nat.not_le.mpr hx.2.2] using hok x hx.1
          · exact .same rfl rfl rfl
  | connect =>
      cases hs
      exact .joined rfl rfl (coming_connect s)
  | visit tenantId =>
      cases hs
      exact .same rfl rfl (coming_opened hf.connected tenantId)
  | register i =>
      obtain ⟨w, hw, hs⟩ := Option.bind_eq_some_iff.mp hs
      split at hs
      · rename_i events hphase
        cases hs
        refine .same rfl rfl (coming_set hw ?_ rfl rfl)
        simp [WebSocket.coming, WebSocket.onWire, HandlerPhase.events, hphase]
      · cases hs
  | replay i =>
      obtain ⟨w, hw, hs⟩ := Option.bind_eq_some_iff.mp hs
      split at hs
      · rename_i k row events hphase
        cases hs
        refine .same rfl rfl (coming_set hw ?_ rfl rfl)
        unfold WebSocket.coming
        rw [onWire_write_event, hphase]
        simp [WebSocket.onWire, WebSocket.write, HandlerPhase.events]
      · cases hs
  | ping i =>
      obtain ⟨w, hw, hs⟩ := Option.bind_eq_some_iff.mp hs
      split at hs
      · cases hs
        refine .same rfl rfl (coming_set hw ?_ rfl rfl)
        unfold WebSocket.coming
        rw [onWire_write_pong]
        rfl
      · cases hs
  | leave i =>
      obtain ⟨w, hw, hs⟩ := Option.bind_eq_some_iff.mp hs
      split at hs
      · cases hs
        exact clientStep_closed hw rfl rfl rfl
      · cases hs
        exact clientStep_closed hw rfl rfl rfl
      · cases hs
  | receive =>
      obtain ⟨i, hmine, hs⟩ := Option.bind_eq_some_iff.mp hs
      obtain ⟨w, hw, hs⟩ := Option.bind_eq_some_iff.mp hs
      have hlt : i < s.sockets.length := (List.getElem?_eq_some_iff.mp hw).1
      split at hs
      · cases hs
      · rename_i m rest hwire
        cases hs
        cases m with
        | pong =>
            refine .same rfl rfl (coming_set hw ?_ rfl rfl)
            unfold WebSocket.coming WebSocket.onWire
            rw [hwire]
            rfl
        | event row =>
            refine .took row rfl rfl ?_
            have hsock : (s.client.onMessage (.event row)).socket = some i := by
              simp only [WsClient.onMessage]
              split_ifs <;> exact hmine
            rw [coming_eq hmine hw, coming_eq hsock (List.getElem?_set_self hlt)]
            unfold WebSocket.coming WebSocket.onWire
            rw [hwire]
            rfl
  | disconnect =>
      cases hs
      exact .cut s.coming rfl rfl rfl
  | reset =>
      cases hs
      exact .forgot rfl rfl rfl

theorem getEvents_pairwise (hf : s.Filed) (tenantId : String) :
    (s.getEvents tenantId).Pairwise (·.seq < ·.seq) :=
  hf.numbered.sublist List.filter_sublist

theorem mem_getEvents {row : EventRow} {tenantId : String} :
    row ∈ s.getEvents tenantId ↔ row ∈ s.log ∧ row.tenantId = tenantId := by
  simp [EventStream.getEvents]

/-- Rows of the log with one number are one row. -/
theorem eq_of_seq (hf : s.Filed) {x y : EventRow} (hx : x ∈ s.log) (hy : y ∈ s.log)
    (h : x.seq = y.seq) : x = y := by
  have hnodup : (s.log.map (·.seq)).Nodup := List.pairwise_map.mpr (hf.numbered.imp Nat.ne_of_lt)
  exact List.inj_on_of_nodup_map hnodup hx hy h

/-- The snapshot of the client's handler is in order. -/
theorem ordered_getEvents (hf : s.Filed) :
    Ordered s.Before s.client.kept (s.getEvents s.client.tenantId) := by
  refine ordered_of_pairwise ?_ ?_ ?_
  · refine (getEvents_pairwise hf _).imp ?_
    intro a b hab hba
    exact absurd hba.2.2 (by omega)
  · intro e _ he
    exact absurd he.2.2 (Nat.lt_irrefl _)
  · intro e _ x hx
    exact .inr (mem_getEvents.mpr ⟨hx.1, hx.2.1⟩)

/-- An event that the client receives opens no gap. -/
theorem inStep_took (hf : s.Filed) (hi : s.InStep) {row : EventRow} (hlog : t.log = s.log)
    (hclient : t.client = s.client.onMessage (.event row)) (hcoming : s.coming = row :: t.coming) :
    t.InStep := by
  have hrow : row ∈ s.log := hi.logged row (by simp [hcoming])
  have hlogged : ∀ x ∈ t.coming, x ∈ t.log := by
    intro x hx
    rw [hlog]
    exact hi.logged x (by simp [hcoming, hx])
  have hordered := hi.ordered
  rw [hcoming] at hordered
  obtain ⟨hhead, htail⟩ := hordered
  simp only [WsClient.onMessage] at hclient
  split_ifs at hclient with hold
  · -- The event is dropped; if the client sees it, it has it already.
    refine ⟨hlogged, ?_, ?_, ?_⟩
    · rw [hclient, hlog]
      exact hi.seen
    · unfold EventStream.Gapless
      rw [hclient, hlog]
      exact hi.gapless
    · rw [hclient]
      refine (Ordered.mono ?_ htail).imp ?_
      · intro x e hxe hx
        rcases List.mem_append.mp hx with hx | hx
        · exact hx
        · rw [List.mem_singleton.mp hx] at hxe ⊢
          exact hi.gapless row hrow hxe.2.1 hold
      · intro e _ x hx
        unfold EventStream.Before at hx ⊢
        rwa [hlog, hclient] at hx
  · refine ⟨hlogged, ?_, ?_, ?_⟩
    · rw [hclient, hlog]
      exact hf.bounded row hrow
    · intro x hx htenant hseq
      rw [hclient] at htenant hseq ⊢
      rw [hlog] at hx
      have hle : x.seq ≤ row.seq := hseq
      rcases Nat.lt_or_eq_of_le hle with hlt | heq
      · exact List.mem_append_left _ (hhead x ⟨hx, htenant, hlt⟩)
      · rw [eq_of_seq hf hx hrow heq]
        exact List.mem_append_right _ List.mem_cons_self
    · rw [hclient]
      refine Ordered.imp ?_ htail
      intro e _ x hx
      unfold EventStream.Before at hx ⊢
      rwa [hlog, hclient] at hx

/-- The order does not change while log and tenant stay the same. -/
theorem before_congr (hlog : t.log = s.log) (htenant : t.client.tenantId = s.client.tenantId) :
    t.Before = s.Before := by
  funext x e
  unfold EventStream.Before
  rw [hlog, htenant]

/-- Log, kept events and last number are the same, and what comes is in order. -/
theorem EventStream.InStep.of_same (hi : s.InStep) (hlog : t.log = s.log)
    (hclient : t.client = { s.client with socket := t.client.socket })
    (hlogged : ∀ row ∈ t.coming, row ∈ s.log) (hordered : Ordered s.Before s.client.kept t.coming) :
    t.InStep := by
  have htenant : t.client.tenantId = s.client.tenantId := by rw [hclient]
  have hkept : t.client.kept = s.client.kept := by rw [hclient]
  have hseen : t.client.lastSeq = s.client.lastSeq := by rw [hclient]
  refine ⟨?_, ?_, ?_, ?_⟩
  · rw [hlog]
    exact hlogged
  · rw [hseen, hlog]
    exact hi.seen
  · unfold EventStream.Gapless
    rw [hlog, htenant, hseen, hkept]
    exact hi.gapless
  · rw [before_congr hlog htenant, hkept]
    exact hordered

theorem inStep_of_clientStep (hf : s.Filed) (hi : s.InStep) (h : ClientStep s t) : t.InStep := by
  cases h with
  | same hlog hclient hcoming =>
      refine hi.of_same hlog (by rw [hclient]) ?_ ?_
      · rw [hcoming]
        exact hi.logged
      · rw [hcoming]
        exact hi.ordered
  | grown row hlog hseq hclient hcoming =>
      refine ⟨?_, ?_, ?_, ?_⟩
      · intro x hx
        rw [hlog]
        exact List.mem_append_left _ (hi.logged x (hcoming ▸ hx))
      · have hseen := hi.seen
        rw [hlog, hclient, List.length_append]
        omega
      · intro x hx htenant hle
        rw [hclient] at htenant hle ⊢
        rw [hlog] at hx
        rcases List.mem_append.mp hx with hx | hx
        · exact hi.gapless x hx htenant hle
        · have hseen := hi.seen
          rw [List.mem_singleton.mp hx, hseq] at hle
          omega
      · rw [hclient, hcoming]
        refine Ordered.imp ?_ hi.ordered
        intro e he x hx
        unfold EventStream.Before at hx
        rw [hlog, hclient] at hx
        obtain ⟨hmem, htenant, hlt⟩ := hx
        -- The new event has a number above those of all events that come.
        have hbound := hf.bounded e (hi.logged e he)
        rcases List.mem_append.mp hmem with hmem | hmem
        · exact ⟨hmem, htenant, hlt⟩
        · rw [List.mem_singleton.mp hmem, hseq] at hlt
          omega
  | joined hlog hclient hcoming =>
      refine hi.of_same hlog hclient ?_ ?_
      · intro x hx
        rw [hcoming] at hx
        exact (mem_getEvents.mp hx).1
      · rw [hcoming]
        exact ordered_getEvents hf
  | cut q hlog hclient hcoming =>
      refine hi.of_same hlog hclient ?_ ?_
      · intro x hx
        exact hi.logged x (by simp [hcoming, hx])
      · have hordered := hi.ordered
        rw [hcoming] at hordered
        exact hordered.of_append
  | inserted row p q hlog hclient hcoming hcoming' hrow hbefore =>
      refine hi.of_same hlog (by rw [hclient]) ?_ ?_
      · intro x hx
        rw [hcoming'] at hx
        rcases List.mem_append.mp hx with hx | hx
        · exact hi.logged x (by simp [hcoming, hx])
        · rcases List.mem_cons.mp hx with rfl | hx
          · exact hrow
          · exact hi.logged x (by simp [hcoming, hx])
      · have hordered := hi.ordered
        rw [hcoming] at hordered
        rw [hcoming']
        exact hordered.insert hbefore
  | took row hlog hclient hcoming => exact inStep_took hf hi hlog hclient hcoming
  | forgot hlog hclient hcoming =>
      refine ⟨?_, ?_, ?_, ?_⟩
      · rw [hcoming]
        exact nofun
      · rw [hclient]
        exact Nat.zero_le _
      · intro x hx htenant hle
        rw [hclient] at hle
        rw [hlog] at hx
        exact absurd hle (Nat.not_le.mpr (hf.positive x hx))
      · rw [hcoming]
        trivial

/-- Log and pending events are the same, no broadcast has another event, and sockets stay. -/
theorem EventStream.Filed.of_same (hf : s.Filed) (hlog : t.log = s.log) (hpending : t.pending = s.pending)
    (hb : ∀ b ∈ t.broadcasts, b.row ∈ s.log)
    (hconn : ∀ i, t.client.socket = some i → i < t.sockets.length) : t.Filed where
  numbered := hlog ▸ hf.numbered
  positive := hlog ▸ hf.positive
  bounded := hlog ▸ hf.bounded
  pending := by
    rw [hlog, hpending]
    exact hf.pending
  broadcast := hlog ▸ hb
  connected := hconn

theorem filed_append (hf : s.Filed) {row : EventRow} (hseq : row.seq = s.log.length + 1) :
    ({ s with log := s.log ++ [row], pending := s.pending ++ [row] } : EventStream).Filed where
  numbered := by
    refine List.pairwise_append.mpr ⟨hf.numbered, List.pairwise_singleton _ _, ?_⟩
    intro x hx y hy
    have hbound := hf.bounded x hx
    rw [List.mem_singleton.mp hy, hseq]
    omega
  positive := by
    intro x hx
    rcases List.mem_append.mp hx with hx | hx
    · exact hf.positive x hx
    · rw [List.mem_singleton.mp hx, hseq]
      omega
  bounded := by
    intro x hx
    rw [List.length_append, List.length_singleton]
    rcases List.mem_append.mp hx with hx | hx
    · have hbound := hf.bounded x hx
      omega
    · rw [List.mem_singleton.mp hx, hseq]
  pending := by
    intro x hx
    rcases List.mem_append.mp hx with hx | hx
    · exact List.mem_append_left _ (hf.pending x hx)
    · exact List.mem_append_right _ hx
  broadcast := fun b hb => List.mem_append_left _ (hf.broadcast b hb)
  connected := hf.connected

theorem filed_of_step (hf : s.Filed) {m : StreamMove} (hs : streamStep s m = some t) : t.Filed := by
  -- Replacing a socket keeps their number.
  have hset : ∀ (i : ℕ) (w : WebSocket) (j : ℕ), s.client.socket = some j →
      j < (s.sockets.set i w).length := by
    intro i w j hj
    rw [List.length_set]
    exact hf.connected j hj
  cases m with
  | append row =>
      cases hs
      exact filed_append hf rfl
  | announce n =>
      obtain ⟨row, hrow, rfl⟩ := Option.map_eq_some_iff.mp hs
      refine ⟨hf.numbered, hf.positive, hf.bounded, ?_, ?_, hf.connected⟩
      · intro x hx
        exact hf.pending x (List.mem_of_mem_eraseIdx hx)
      · intro b hb
        rcases List.mem_append.mp hb with hb | hb
        · exact hf.broadcast b hb
        · rw [List.mem_singleton.mp hb]
          exact hf.pending row (List.mem_of_getElem? hrow)
  | send j reached =>
      obtain ⟨b, hb, rfl⟩ := Option.map_eq_some_iff.mp hs
      have hrow := hf.broadcast b (List.mem_of_getElem? hb)
      have hnext : ∀ stale, ∀ b' ∈ s.broadcasts.set j { b with next := b.next + 1, stale }, b'.row ∈ s.log := by
        intro stale b' hb'
        rcases List.mem_or_eq_of_mem_set hb' with hb' | rfl
        · exact hf.broadcast b' hb'
        · exact hrow
      cases htarget : s.target b with
      | none =>
          refine hf.of_same rfl rfl ?_ hf.connected
          intro b' hb'
          exact hf.broadcast b' (List.mem_of_mem_eraseIdx hb')
      | some i =>
          dsimp only
          split_ifs
          · exact hf.of_same rfl rfl (hnext _) hf.connected
          · refine hf.of_same rfl rfl (hnext _) ?_
            intro k hk
            rw [List.length_modify]
            exact hf.connected k hk
          · exact hf.of_same rfl rfl (hnext _) hf.connected
  | connect =>
      cases hs
      refine hf.of_same rfl rfl hf.broadcast ?_
      intro i hi
      cases hi
      simp [EventStream.opened]
  | visit tenantId =>
      cases hs
      refine hf.of_same rfl rfl hf.broadcast ?_
      intro i hi
      have hlt := hf.connected i hi
      simp only [EventStream.opened, List.length_append, List.length_singleton]
      omega
  | register i =>
      obtain ⟨w, hw, hs⟩ := Option.bind_eq_some_iff.mp hs
      split at hs
      · cases hs
        exact hf.of_same rfl rfl hf.broadcast (hset _ _)
      · cases hs
  | replay i =>
      obtain ⟨w, hw, hs⟩ := Option.bind_eq_some_iff.mp hs
      split at hs
      · cases hs
        exact hf.of_same rfl rfl hf.broadcast (hset _ _)
      · cases hs
  | ping i =>
      obtain ⟨w, hw, hs⟩ := Option.bind_eq_some_iff.mp hs
      split at hs
      · cases hs
        exact hf.of_same rfl rfl hf.broadcast (hset _ _)
      · cases hs
  | leave i =>
      obtain ⟨w, hw, hs⟩ := Option.bind_eq_some_iff.mp hs
      split at hs
      · cases hs
        exact hf.of_same rfl rfl hf.broadcast (hset _ _)
      · cases hs
        exact hf.of_same rfl rfl hf.broadcast (hset _ _)
      · cases hs
  | receive =>
      obtain ⟨i, hmine, hs⟩ := Option.bind_eq_some_iff.mp hs
      obtain ⟨w, hw, hs⟩ := Option.bind_eq_some_iff.mp hs
      split at hs
      · cases hs
      · rename_i m rest hwire
        cases hs
        refine hf.of_same rfl rfl hf.broadcast ?_
        intro k hk
        refine hset _ _ k ?_
        rw [← hk]
        cases m with
        | pong => rfl
        | event row =>
            simp only [WsClient.onMessage]
            split_ifs <;> rfl
  | disconnect =>
      cases hs
      exact hf.of_same rfl rfl hf.broadcast nofun
  | reset =>
      cases hs
      exact hf.of_same rfl rfl hf.broadcast nofun

end Coming

/-- Before the first move. -/
theorem filed_start (runId tenantId : String) :
    EventStream.Filed { runId := runId, client := { tenantId := tenantId } } := by
  refine ⟨List.Pairwise.nil, ?_, ?_, ?_, ?_, ?_⟩
  · intro row hrow
    cases hrow
  · intro row hrow
    cases hrow
  · intro row hrow
    cases hrow
  · intro b hb
    cases hb
  · intro i hi
    cases hi

theorem inStep_start (runId tenantId : String) :
    EventStream.InStep { runId := runId, client := { tenantId := tenantId } } := by
  refine ⟨?_, Nat.le_refl _, ?_, trivial⟩
  · intro row hrow
    cases hrow
  · intro row hrow
    cases hrow

/-- **No gaps**: for every interleaving of appends, connections and broadcasts in which the client is
never sent an event ahead of an earlier one, the client has at every moment kept every event of its
tenant up to its last number. -/
theorem kept_without_gaps {runId tenantId : String} {s : EventStream}
    (h : ReachesVia streamStep (fun s m => inOrder s m = true) { runId, client := { tenantId } } s) :
    s.Gapless := by
  have hinv := h.invariant (I := fun s => s.Filed ∧ s.InStep)
    ⟨filed_start runId tenantId, inStep_start runId tenantId⟩
    (by
      intro s t m _ hok hi hs
      exact ⟨filed_of_step hi.1 hs, inStep_of_clientStep hi.1 hi.2 (clientStep_of_step hi.1 hok hs)⟩)
  exact hinv.2.gapless

/-! A run of the tenant "a". -/

def streamDraft : EventRow := { runId := "", tenantId := "a", eventType := .run, payload := [] }

def newStream : EventStream := { runId := "r", client := { tenantId := "a" } }

/-- The second event is appended and broadcast while the connection is being accepted, the third when
the first has been replayed. -/
def lateRegistration : List StreamMove :=
  [.append streamDraft, .announce 0, .send 0 true, .connect, .append streamDraft, .announce 0,
    .send 0 true, .register 0, .replay 0, .receive, .append streamDraft, .announce 0, .send 0 true, .receive]

/-- The client has the first and the third event, its last number is 3, and it has no second. -/
theorem event_is_never_kept : ∃ s, Reaches streamStep newStream s ∧ s.log.map (·.seq) = [1, 2, 3] ∧
    s.client.kept.map (·.seq) = [1, 3] ∧ s.client.lastSeq = 3 ∧ ¬ s.Gapless := by
  obtain ⟨s, hs, hp⟩ := exists_reaches_of_run streamStep lateRegistration newStream
    (fun s => s.log.map (·.seq) = [1, 2, 3] && s.client.kept.map (·.seq) = [1, 3] &&
      s.client.lastSeq = 3 && s.log.all (·.tenantId = s.client.tenantId)) (by decide)
  simp only [Bool.and_eq_true, decide_eq_true_eq, List.all_eq_true] at hp
  obtain ⟨⟨⟨hlog, hkept⟩, hlast⟩, htenant⟩ := hp
  refine ⟨s, hs, hlog, hkept, hlast, ?_⟩
  intro hgap
  have hmem : 2 ∈ s.log.map (·.seq) := by
    rw [hlog]
    decide
  obtain ⟨row, hrow, hseq⟩ := List.mem_map.mp hmem
  have hin := hgap row hrow (htenant row hrow) (by omega)
  have hmem' : 2 ∈ s.client.kept.map (·.seq) := List.mem_map.mpr ⟨row, hin, hseq⟩
  rw [hkept] at hmem'
  exact absurd hmem' (by decide)

/-- The second event is appended when the socket is registered and the first event has been sent. -/
theorem both_events_are_kept : ∃ s, ReachesVia streamStep (fun s m => inOrder s m = true) newStream s ∧
    s.client.kept.map (·.seq) = [1, 2] ∧ s.Gapless := by
  obtain ⟨s, hs, hp⟩ := exists_reachesVia_of_run streamStep inOrder
    [.append streamDraft, .announce 0, .send 0 true, .connect, .register 0, .replay 0,
      .append streamDraft, .announce 0, .send 0 true, .receive, .receive] newStream
    (fun s => s.client.kept.map (·.seq) = [1, 2]) (by decide)
  exact ⟨s, hs, of_decide_eq_true hp, kept_without_gaps hs⟩

end JAgent
