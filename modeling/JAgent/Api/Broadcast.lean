import JAgent.Lib.Cursor
import JAgent.Lib.Dict
import JAgent.Lib.System
import JAgent.Value

/-! # Broadcasting an event

`broadcast_event` goes over the list of the clients of a run and awaits a send to each one of the event's
tenant.  While it waits, connections come and go: `ws_events` appends a connection to the list of its run,
and on a disconnect it replaces the contents of the list it has appended to, in place; when that list is
empty then, it takes the entry of the run out of the registry.  `cleanup_run_resources` takes the entry out
whatever the list holds, and the next connection gets a new list.

The loop reads the list by index, so a client that disconnects after it has been passed lets the next one
pass without being sent to; and a connection whose list is no longer the one in the registry can take the
entry of the others out.  `broadcast_reaches_iff` says that there is nothing else: a client that stays
connected is sent the event once and stays registered exactly when neither happens to it. -/

namespace JAgent

/-! ### The registries -/

/-- What a connection's handler holds: its run, and the list it has appended the connection to. -/
structure WsHandler where
  runId : String
  list : ℕ
deriving DecidableEq

/-- A call of `broadcast_event`: the list it goes over, the index it reads next, the client whose send it
awaits, the clients whose sends have failed, and all it has sent the event to. -/
structure BroadcastState where
  runId : String
  tenant : Value
  clients : Option ℕ
  next : ℕ := 0
  sending : Option ℕ := none
  stale : List ℕ := []
  sent : List ℕ := []

inductive BroadcastCall where
  | none
  | running (b : BroadcastState)
  | finished (b : BroadcastState)

/-- The list objects, `_ws_clients` by run, `_ws_client_tenants`, the open connections and the call. -/
structure WsState where
  lists : List (List ℕ) := []
  wsClients : Lib.Dict String ℕ := .empty
  wsClientTenants : Lib.Dict ℕ String := .empty
  handlers : Lib.Dict ℕ WsHandler := .empty
  call : BroadcastCall := .none

inductive WsAction where
  | connect (ws : ℕ) (runId tenant : String)
  | disconnect (ws : ℕ)
  | cleanup (runId : String)
  | broadcast (runId eventJson : String)
  | sent (ok : Bool)

/-- `json.loads(event_json).get("tenant_id", "default")`. -/
def eventTenant [Py] (eventJson : String) : Except String Value :=
  match Py.loads eventJson with
  | none => .ok (.str "default")
  | some (.obj o) => .ok ((Obj.get? o "tenant_id").getD (.str "default"))
  | some _ => .error "object has no attribute 'get'"

namespace WsState
variable (s : WsState)

/-- The contents of a list object. -/
def clientsAt (id : ℕ) : List ℕ := s.lists.getD id []

/-- `self._ws_client_tenants.get(id(ws), "default")`. -/
def tenantOf (ws : ℕ) : Value := .str ((s.wsClientTenants.get? ws).getD "default")

/-- The object of the connection is in use. -/
def inUse (ws : ℕ) : Bool :=
  (s.handlers.get? ws).isSome || match s.call with
    | .running b => b.sending = some ws || b.stale.contains ws
    | _ => false

/-- `self._ws_clients.setdefault(run_id, [])`. -/
def setDefault (runId : String) : WsState × ℕ :=
  match s.wsClients.get? runId with
  | some id => (s, id)
  | none => ({ s with
      lists := s.lists ++ [[]]
      wsClients := s.wsClients.set runId s.lists.length }, s.lists.length)

/-- `ws_events` up to its loop. -/
def register (ws : ℕ) (runId tenant : String) : WsState :=
  let (s', id) := s.setDefault runId
  { s' with
    lists := s'.lists.modify id (· ++ [ws])
    wsClientTenants := s'.wsClientTenants.set ws tenant
    handlers := s'.handlers.set ws ⟨runId, id⟩ }

/-- The `finally` of `ws_events`. -/
def unregister (ws : ℕ) (h : WsHandler) : WsState :=
  let lists := s.lists.modify h.list (·.filter (· ≠ ws))
  { s with
    lists := lists
    wsClientTenants := s.wsClientTenants.pop ws
    handlers := s.handlers.pop ws
    wsClients := if (lists.getD h.list []).isEmpty then s.wsClients.pop h.runId else s.wsClients }

/-- The clients that the call goes over; without an entry, a list of its own. -/
def clientsOf (b : BroadcastState) : List ℕ := b.clients.elim [] s.clientsAt

/-- The loop of `broadcast_event` up to its next send, or to its end. -/
def proceed (b : BroadcastState) : WsState :=
  match Lib.seek (fun ws => decide (s.tenantOf ws = b.tenant)) b.next ((s.clientsOf b).drop b.next) with
  | some (i, ws) =>
      { s with call := .running { b with next := i + 1, sending := some ws, sent := b.sent ++ [ws] } }
  | none =>
      { s with
        lists := b.clients.elim s.lists fun id => s.lists.modify id (·.filter (· ∉ b.stale))
        wsClientTenants := s.wsClientTenants.popMany b.stale
        call := .finished { b with sending := none } }

variable [Py]

/-- One action.  A connection is an object of its own, and one broadcast goes on at a time. -/
def step (s : WsState) : WsAction → Option WsState
  | .connect ws runId tenant => if s.inUse ws then none else some (s.register ws runId tenant)
  | .disconnect ws => (s.handlers.get? ws).map (s.unregister ws)
  | .cleanup runId => some { s with wsClients := s.wsClients.pop runId }
  | .broadcast runId eventJson => match s.call, eventTenant eventJson with
      | .running _, _ => none
      | _, .error _ => none
      | _, .ok tenant => some (s.proceed { runId, tenant, clients := s.wsClients.get? runId })
  | .sent ok => match s.call with
      | .running b => match b.sending with
          | some ws => some (s.proceed { b with
              sending := none
              stale := if ok then b.stale else b.stale ++ [ws] })
          | none => none
      | _ => none

/-- What happens until the call returns. -/
def callStep (s : WsState) (a : WsAction) : Option WsState :=
  match s.call with
  | .running _ => s.step a
  | _ => none

end WsState

/-! ### Well-formed registries -/

/-- A list has a connection once, and it is the list of the connection's handler. -/
structure WsWellFormed (s : WsState) : Prop where
  nodup : ∀ id, (s.clientsAt id).Nodup
  home : ∀ id, ∀ ws ∈ s.clientsAt id, ∃ h, s.handlers.get? ws = some h ∧ h.list = id
  allocated : ∀ runId id, s.wsClients.get? runId = some id → id < s.lists.length

theorem getD_modify (l : List (List ℕ)) (i j : ℕ) (f : List ℕ → List ℕ) :
    (l.modify i f).getD j [] = if i = j ∧ j < l.length then f (l.getD j []) else l.getD j [] := by
  rw [List.getD_eq_getElem?_getD, List.getD_eq_getElem?_getD, List.getElem?_modify]
  by_cases hlt : j < l.length
  · rw [List.getElem?_eq_getElem hlt]
    by_cases hij : i = j
    · simp [hij, hlt]
    · simp [hij]
  · rw [List.getElem?_eq_none (Nat.le_of_not_lt hlt), if_neg fun h => hlt h.2]
    rfl

/-- A list that is filtered. -/
theorem getD_modify_filter (l : List (List ℕ)) (i j : ℕ) (p : ℕ → Bool) :
    (l.modify i (·.filter p)).getD j [] = if i = j then (l.getD j []).filter p else l.getD j [] := by
  rw [getD_modify]
  by_cases hlt : j < l.length
  · simp [hlt]
  · have hnil : l.getD j [] = [] := by
      rw [List.getD_eq_getElem?_getD, List.getElem?_eq_none (Nat.le_of_not_lt hlt)]
      rfl
    rw [if_neg fun h => hlt h.2, hnil, List.filter_nil, ite_self]

section registries
variable {s : WsState} {ws : ℕ} {runId tenant : String}

theorem clientsAt_setDefault (s : WsState) (runId : String) (id : ℕ) :
    (s.setDefault runId).1.clientsAt id = s.clientsAt id := by
  rw [WsState.setDefault]
  cases s.wsClients.get? runId with
  | some id' => rfl
  | none =>
      show (s.lists ++ [[]]).getD id [] = s.lists.getD id []
      rw [List.getD_eq_getElem?_getD, List.getD_eq_getElem?_getD, List.getElem?_append]
      split_ifs with hlt
      · rfl
      · rw [List.getElem?_eq_none (Nat.le_of_not_lt hlt)]
        cases id - s.lists.length <;> rfl

/-- The entry of the run is there then, and no other entry changes. -/
theorem wsClients_setDefault (h : WsWellFormed s) :
    (s.setDefault runId).1.wsClients.get? runId = some (s.setDefault runId).2 ∧
      (∀ r id, (s.setDefault runId).1.wsClients.get? r = some id →
        id < (s.setDefault runId).1.lists.length) ∧
      ∀ r, s.wsClients.get? r ≠ none → (s.setDefault runId).1.wsClients.get? r = s.wsClients.get? r := by
  rw [WsState.setDefault]
  cases hget : s.wsClients.get? runId with
  | some id => exact ⟨hget, h.allocated, fun r _ => rfl⟩
  | none =>
      refine ⟨?_, fun r id hid => ?_, fun r hr => ?_⟩
      · show (s.wsClients.set runId s.lists.length).get? runId = _
        rw [Lib.Dict.get?_set, if_pos rfl]
      · show id < (s.lists ++ [[]]).length
        rw [List.length_append, List.length_singleton]
        replace hid : (s.wsClients.set runId s.lists.length).get? r = some id := hid
        obtain ⟨-, rfl⟩ | ⟨-, hold⟩ := Lib.Dict.get?_set_cases hid
        · exact Nat.lt_succ_self _
        · exact Nat.lt_succ_of_lt (h.allocated r id hold)
      · show (s.wsClients.set runId s.lists.length).get? r = _
        rw [Lib.Dict.get?_set, if_neg]
        rintro rfl
        exact hr hget

theorem clientsAt_register (h : WsWellFormed s) (ws : ℕ) (runId tenant : String) (id : ℕ) :
    (s.register ws runId tenant).clientsAt id =
      if (s.setDefault runId).2 = id then s.clientsAt id ++ [ws] else s.clientsAt id := by
  have hlt := (wsClients_setDefault h).2.1 runId _ (@wsClients_setDefault s runId h).1
  show ((s.setDefault runId).1.lists.modify (s.setDefault runId).2 (· ++ [ws])).getD id [] = _
  rw [getD_modify]
  have hsame : (s.setDefault runId).1.lists.getD id [] = s.clientsAt id := clientsAt_setDefault s runId id
  rw [hsame]
  by_cases hid : (s.setDefault runId).2 = id
  · rw [if_pos hid, if_pos ⟨hid, hid ▸ hlt⟩]
  · rw [if_neg hid, if_neg fun hand => hid hand.1]

theorem clientsAt_unregister (s : WsState) (ws : ℕ) (h : WsHandler) (id : ℕ) :
    (s.unregister ws h).clientsAt id =
      if h.list = id then (s.clientsAt id).filter (· ≠ ws) else s.clientsAt id :=
  getD_modify_filter _ _ _ _

theorem WsWellFormed.register (h : WsWellFormed s) (hfree : s.handlers.get? ws = none) :
    WsWellFormed (s.register ws runId tenant) := by
  have hne : ∀ {id x}, x ∈ s.clientsAt id → x ≠ ws := by
    rintro id x hx rfl
    obtain ⟨hd, hget, -⟩ := h.home id x hx
    rw [hfree] at hget
    cases hget
  have hhandlers : ∀ x, (s.register ws runId tenant).handlers.get? x =
      if ws = x then some ⟨runId, (s.setDefault runId).2⟩ else (s.setDefault runId).1.handlers.get? x :=
    fun x => Lib.Dict.get?_set _ _ _ _
  have hsame : (s.setDefault runId).1.handlers = s.handlers := by
    rw [WsState.setDefault]
    cases s.wsClients.get? runId <;> rfl
  refine ⟨fun id => ?_, fun id x hx => ?_, fun r id hid => ?_⟩
  · rw [clientsAt_register h]
    split_ifs
    · refine (h.nodup id).append (List.nodup_singleton ws) ?_
      exact List.disjoint_singleton.mpr fun hmem => hne hmem rfl
    · exact h.nodup id
  · rw [clientsAt_register h] at hx
    rw [hhandlers, hsame]
    have hold : x ∈ s.clientsAt id → ∃ hd, (if ws = x then some ⟨runId, (s.setDefault runId).2⟩ else
        s.handlers.get? x) = some hd ∧ hd.list = id := by
      intro hmem
      rw [if_neg (Ne.symm (hne hmem))]
      exact h.home id x hmem
    split_ifs at hx with hid
    · obtain hx | hx := List.mem_append.mp hx
      · exact hold hx
      · rw [List.mem_singleton.mp hx, if_pos rfl]
        exact ⟨_, rfl, hid⟩
    · exact hold hx
  · have hlt := (wsClients_setDefault h).2.1 r id hid
    show id < ((s.setDefault runId).1.lists.modify _ _).length
    rw [List.length_modify]
    exact hlt

theorem WsWellFormed.unregister {hd : WsHandler} (h : WsWellFormed s) (hget : s.handlers.get? ws = some hd) :
    WsWellFormed (s.unregister ws hd) := by
  refine ⟨fun id => ?_, fun id x hx => ?_, fun r id hid => ?_⟩
  · rw [clientsAt_unregister]
    split_ifs
    · exact (h.nodup id).filter _
    · exact h.nodup id
  · rw [clientsAt_unregister] at hx
    have hmem : x ∈ s.clientsAt id ∧ ws ≠ x := by
      split_ifs at hx with hid
      · obtain ⟨hmem, hne⟩ := List.mem_filter.mp hx
        exact ⟨hmem, Ne.symm (of_decide_eq_true hne)⟩
      · refine ⟨hx, ?_⟩
        rintro rfl
        obtain ⟨hd', hget', hlist⟩ := h.home id ws hx
        rw [hget] at hget'
        exact hid (Option.some.inj hget' ▸ hlist)
    show ∃ hd', (s.handlers.pop ws).get? x = some hd' ∧ hd'.list = id
    rw [Lib.Dict.get?_pop, if_neg hmem.2]
    exact h.home id x hmem.1
  · show id < (s.lists.modify _ _).length
    rw [List.length_modify]
    replace hid : (if ((s.lists.modify hd.list (·.filter (· ≠ ws))).getD hd.list []).isEmpty then
      s.wsClients.pop hd.runId else s.wsClients).get? r = some id := hid
    split_ifs at hid
    · rw [Lib.Dict.get?_pop] at hid
      split_ifs at hid
      exact h.allocated r id hid
    · exact h.allocated r id hid

/-- The end of the loop takes the clients whose sends have failed out of its list. -/
theorem clientsAt_stale (s : WsState) (b : BroadcastState) (id : ℕ) :
    (b.clients.elim s.lists fun id => s.lists.modify id (·.filter (· ∉ b.stale))).getD id [] =
      if b.clients = some id then (s.clientsAt id).filter (· ∉ b.stale) else s.clientsAt id := by
  cases b.clients with
  | none => rfl
  | some home =>
      rw [Option.elim_some, getD_modify_filter]
      simp only [Option.some.injEq]
      rfl

theorem WsWellFormed.proceed (h : WsWellFormed s) (b : BroadcastState) : WsWellFormed (s.proceed b) := by
  rw [WsState.proceed]
  split
  · exact ⟨h.nodup, h.home, h.allocated⟩
  · refine ⟨fun id => ?_, fun id x hx => ?_, fun r id hid => ?_⟩
    · show (List.getD _ id []).Nodup
      rw [clientsAt_stale]
      split_ifs
      · exact (h.nodup id).filter _
      · exact h.nodup id
    · replace hx : x ∈ List.getD _ id [] := hx
      rw [clientsAt_stale] at hx
      split_ifs at hx
      · exact h.home id x (List.mem_of_mem_filter hx)
      · exact h.home id x hx
    · have hlt := h.allocated r id hid
      show id < (b.clients.elim s.lists fun id => s.lists.modify id (·.filter (· ∉ b.stale))).length
      cases b.clients with
      | none => exact hlt
      | some home =>
          rw [Option.elim_some, List.length_modify]
          exact hlt

theorem WsWellFormed.cleanup (h : WsWellFormed s) (runId : String) :
    WsWellFormed { s with wsClients := s.wsClients.pop runId } := by
  refine ⟨h.nodup, h.home, fun r id hid => ?_⟩
  replace hid : (s.wsClients.pop runId).get? r = some id := hid
  rw [Lib.Dict.get?_pop] at hid
  split_ifs at hid
  exact h.allocated r id hid

theorem handlers_of_inUse (h : ¬s.inUse ws = true) : s.handlers.get? ws = none := by
  rw [WsState.inUse, Bool.or_eq_true, not_or, Option.isSome_iff_ne_none, not_not] at h
  exact h.1

variable [Py]

/-- **Every action keeps the registries well formed.** -/
theorem WsWellFormed.step {t : WsState} {a : WsAction} (h : WsWellFormed s) (hs : s.step a = some t) :
    WsWellFormed t := by
  cases a with
  | connect ws runId tenant =>
      rw [WsState.step] at hs
      split_ifs at hs with huse
      obtain rfl := Option.some.inj hs
      exact h.register (handlers_of_inUse huse)
  | disconnect ws =>
      rw [WsState.step, Option.map_eq_some_iff] at hs
      obtain ⟨hd, hget, rfl⟩ := hs
      exact h.unregister hget
  | cleanup runId =>
      obtain rfl := Option.some.inj hs
      exact h.cleanup runId
  | broadcast runId eventJson =>
      rw [WsState.step] at hs
      split at hs
      · cases hs
      · cases hs
      · obtain rfl := Option.some.inj hs
        exact h.proceed _
  | sent ok =>
      rw [WsState.step] at hs
      split at hs
      · split at hs
        · obtain rfl := Option.some.inj hs
          exact h.proceed _
        · cases hs
      · cases hs

theorem wellFormed_of_reaches {t : WsState} (h : Lib.Reaches WsState.step {} t) : WsWellFormed t := by
  refine h.invariant ⟨fun id => List.nodup_nil, fun id x hx => absurd hx List.not_mem_nil,
    fun r id hid => ?_⟩ fun t u a _ ht hs => ht.step hs
  cases hid

end registries

/-! ### One client during the call -/

/-- The client stays connected: it does not disconnect, and the send to it does not fail. -/
def staysConnected (c : ℕ) (s : WsState) : WsAction → Bool
  | .disconnect ws => ws ≠ c
  | .sent ok => match s.call with
      | .running b => ok || b.sending ≠ some c
      | _ => true
  | _ => true

/-- The action does not harm the client: it does not take a client that has been passed out of the list while
this one is next, it does not empty another list of the run, and it does not clean the run up. -/
def sparesClient (c : ℕ) (s : WsState) (a : WsAction) : Bool :=
  match s.call, a with
  | .running b, .disconnect ws => match s.handlers.get? ws with
      | none => true
      | some h =>
          !(b.clients = some h.list && ((s.clientsOf b).take b.next).contains ws &&
            (s.clientsOf b)[b.next]? = some c) &&
          !(h.runId = b.runId && ((s.clientsAt h.list).filter (· ≠ ws)).isEmpty)
  | .running b, .cleanup runId => runId ≠ b.runId
  | _, _ => true

/-- The list has the client, and the client is of the event's tenant. -/
structure Listed (tenant : Value) (home c : ℕ) (s : WsState) : Prop where
  wellFormed : WsWellFormed s
  mem : c ∈ s.clientsAt home
  ofTenant : s.tenantOf c = tenant

/-- The client during the call: it is among the clients passed if it has been sent to. -/
structure Tracks (runId : String) (tenant : Value) (home c : ℕ) (s : WsState) (b : BroadcastState) : Prop
    extends Listed tenant home c s where
  run : b.runId = runId
  event : b.tenant = tenant
  clients : b.clients = some home
  fresh : c ∉ b.stale
  once : b.sent.count c ≤ 1
  passed : c ∈ b.sent → c ∈ (s.clientsAt home).take b.next

/-- The invariant of the call. -/
def TracksCall (runId : String) (tenant : Value) (home c : ℕ) (s : WsState) : Prop :=
  match s.call with
  | .none => False
  | .running b => Tracks runId tenant home c s b
  | .finished b => Listed tenant home c s ∧ b.sent.count c ≤ 1

/-- The client is not lost: it has been sent to, or it can still be; and it is registered. -/
def NotLost (runId : String) (home c : ℕ) (s : WsState) : Prop :=
  (match s.call with
  | .none => False
  | .running b => c ∈ b.sent ∨ c ∉ (s.clientsAt home).take b.next
  | .finished b => c ∈ b.sent) ∧ s.wsClients.get? runId = some home

section client
variable {runId : String} {tenant : Value} {home c : ℕ} {s t : WsState} {b : BroadcastState}

theorem Tracks.clientsOf (h : Tracks runId tenant home c s b) : s.clientsOf b = s.clientsAt home := by
  rw [WsState.clientsOf, h.clients]
  rfl

/-- **The next send**: the call passes the clients of other tenants and the one it sends to. -/
theorem Tracks.nextSend {i ws : ℕ} (h : Tracks runId tenant home c s b)
    (hnext : Lib.seek (fun ws => decide (s.tenantOf ws = b.tenant)) b.next ((s.clientsAt home).drop b.next) =
      some (i, ws)) :
    TracksCall runId tenant home c (s.proceed b) ∧ (NotLost runId home c (s.proceed b) ↔
      (c ∈ b.sent ∨ c ∉ (s.clientsAt home).take b.next) ∧ s.wsClients.get? runId = some home) := by
  have hwf := h.wellFormed.proceed b
  have hproceed : s.proceed b =
      { s with call := .running { b with next := i + 1, sending := some ws, sent := b.sent ++ [ws] } } := by
    rw [WsState.proceed, h.clientsOf, hnext]
  obtain ⟨-, skipped, rest, hdrop, htake, hskipped⟩ := Lib.take_seek hnext
  -- the client that is found has not been passed
  have hws : ws ∉ (s.clientsAt home).take b.next := by
    have hnodup := h.wellFormed.nodup home
    rw [← List.take_append_drop b.next (s.clientsAt home), hdrop, List.nodup_append'] at hnodup
    exact fun hmem => hnodup.2.2 hmem (List.mem_append_right _ List.mem_cons_self)
  have hnot : c ∉ skipped := fun hmem => by
    have hother := hskipped c hmem
    rw [decide_eq_false_iff_not] at hother
    exact hother (h.ofTenant.trans h.event.symm)
  have hmem : c ∈ (s.clientsAt home).take (i + 1) ↔ c ∈ (s.clientsAt home).take b.next ∨ c = ws := by
    rw [htake, List.mem_append, List.mem_append, List.mem_singleton, or_assoc]
    exact or_congr_right (or_iff_right hnot)
  have htracks : Tracks runId tenant home c (s.proceed b)
      { b with next := i + 1, sending := some ws, sent := b.sent ++ [ws] } := by
    rw [hproceed] at hwf ⊢
    refine ⟨⟨hwf, h.mem, h.ofTenant⟩, h.run, h.event, h.clients, h.fresh, ?_, ?_⟩
    · show (b.sent ++ [ws]).count c ≤ 1
      rw [List.count_append, List.count_singleton]
      by_cases hcw : c = ws
      · subst hcw
        rw [List.count_eq_zero.mpr fun hsent => hws (h.passed hsent)]
        split_ifs <;> omega
      · rw [if_neg (by simpa using Ne.symm hcw), Nat.add_zero]
        exact h.once
    · intro hsent
      show c ∈ (s.clientsAt home).take (i + 1)
      rw [hmem]
      obtain hsent | hsent := List.mem_append.mp hsent
      · exact .inl (h.passed hsent)
      · exact .inr (List.mem_singleton.mp hsent)
  rw [hproceed] at htracks ⊢
  refine ⟨htracks, and_congr_left' ?_⟩
  show c ∈ b.sent ++ [ws] ∨ c ∉ (s.clientsAt home).take (i + 1) ↔ _
  rw [hmem, List.mem_append, List.mem_singleton]
  constructor
  · rintro ((hsent | rfl) | hnone)
    · exact .inl hsent
    · exact .inr hws
    · exact .inr fun hpassed => hnone (.inl hpassed)
  · rintro (hsent | hnone)
    · exact .inl (.inl hsent)
    · by_cases hcw : c = ws
      · exact .inl (.inr hcw)
      · exact .inr (not_or.mpr ⟨hnone, hcw⟩)

/-- **The end of the loop**: nobody of the tenant is left behind the index, so the client has been passed. -/
theorem Tracks.lastRead (h : Tracks runId tenant home c s b)
    (hnext : Lib.seek (fun ws => decide (s.tenantOf ws = b.tenant)) b.next ((s.clientsAt home).drop b.next) =
      none) :
    TracksCall runId tenant home c (s.proceed b) ∧ (NotLost runId home c (s.proceed b) ↔
      (c ∈ b.sent ∨ c ∉ (s.clientsAt home).take b.next) ∧ s.wsClients.get? runId = some home) := by
  have hwf := h.wellFormed.proceed b
  have hproceed : s.proceed b =
      { s with
        lists := b.clients.elim s.lists fun id => s.lists.modify id (·.filter (· ∉ b.stale))
        wsClientTenants := s.wsClientTenants.popMany b.stale
        call := .finished { b with sending := none } } := by
    rw [WsState.proceed, h.clientsOf, hnext]
  have hpassed : c ∈ (s.clientsAt home).take b.next := by
    have hmem := h.mem
    rw [← List.take_append_drop b.next (s.clientsAt home)] at hmem
    obtain hmem | hmem := List.mem_append.mp hmem
    · exact hmem
    · have hother := Lib.seek_eq_none hnext c hmem
      rw [decide_eq_false_iff_not] at hother
      exact absurd (h.ofTenant.trans h.event.symm) hother
  have hmem : c ∈ (s.proceed b).clientsAt home := by
    rw [hproceed]
    show c ∈ List.getD _ home []
    rw [clientsAt_stale, if_pos h.clients]
    exact List.mem_filter.mpr ⟨h.mem, decide_eq_true h.fresh⟩
  have htenant : (s.proceed b).tenantOf c = tenant := by
    rw [hproceed]
    show Value.str (((s.wsClientTenants.popMany b.stale).get? c).getD "default") = tenant
    rw [Lib.Dict.get?_popMany, if_neg h.fresh]
    exact h.ofTenant
  have hlisted : Listed tenant home c (s.proceed b) := ⟨hwf, hmem, htenant⟩
  have hcall : (s.proceed b).call = .finished { b with sending := none } := by rw [hproceed]
  have hclients : (s.proceed b).wsClients = s.wsClients := by rw [hproceed]
  rw [TracksCall, NotLost, hcall, hclients]
  exact ⟨⟨hlisted, h.once⟩, and_congr_left' (or_iff_left fun hnone => hnone hpassed).symm⟩

theorem Tracks.proceed (h : Tracks runId tenant home c s b) :
    TracksCall runId tenant home c (s.proceed b) ∧ (NotLost runId home c (s.proceed b) ↔
      (c ∈ b.sent ∨ c ∉ (s.clientsAt home).take b.next) ∧ s.wsClients.get? runId = some home) := by
  cases hnext : Lib.seek (fun ws => decide (s.tenantOf ws = b.tenant)) b.next
      ((s.clientsAt home).drop b.next) with
  | some found => exact h.nextSend hnext
  | none => exact h.lastRead hnext

/-- What the others do to the registries while the call waits. -/
theorem Tracks.frame (h : Tracks runId tenant home c s b) (hwf : WsWellFormed t)
    (hmem : c ∈ t.clientsAt home) (htenant : t.tenantOf c = s.tenantOf c)
    (htake : c ∈ (s.clientsAt home).take b.next → c ∈ (t.clientsAt home).take b.next) :
    Tracks runId tenant home c t b :=
  { wellFormed := hwf
    mem := hmem
    ofTenant := htenant.trans h.ofTenant
    run := h.run
    event := h.event
    clients := h.clients
    fresh := h.fresh
    once := h.once
    passed := fun hsent => htake (h.passed hsent) }

theorem tracksCall_running (hcall : s.call = .running b) :
    TracksCall runId tenant home c s ↔ Tracks runId tenant home c s b := by
  rw [TracksCall, hcall]

theorem notLost_running (hcall : s.call = .running b) : NotLost runId home c s ↔
    (c ∈ b.sent ∨ c ∉ (s.clientsAt home).take b.next) ∧ s.wsClients.get? runId = some home := by
  rw [NotLost, hcall]

theorem lt_length_of_mem_clientsAt (h : c ∈ s.clientsAt home) : home < s.lists.length := by
  by_contra hle
  rw [WsState.clientsAt, List.getD_eq_getElem?_getD, List.getElem?_eq_none (Nat.le_of_not_lt hle)] at h
  cases h

/-- An entry that `setdefault` makes has a list of its own. -/
theorem wsClients_setDefault_iff {r : String} (hlt : home < s.lists.length) :
    (s.setDefault r).1.wsClients.get? runId = some home ↔ s.wsClients.get? runId = some home := by
  rw [WsState.setDefault]
  cases hget : s.wsClients.get? r with
  | some id => rfl
  | none =>
      show (s.wsClients.set r s.lists.length).get? runId = some home ↔ _
      rw [Lib.Dict.get?_set]
      split_ifs with hr
      · rw [← hr, hget]
        constructor
        · intro hid
          obtain rfl := Option.some.inj hid
          omega
        · intro hid
          cases hid
      · rfl

/-- **Another connection comes.** -/
theorem Tracks.register {ws : ℕ} {r ten : String} (h : Tracks runId tenant home c s b)
    (hcall : s.call = .running b) (hfree : s.handlers.get? ws = none) :
    TracksCall runId tenant home c (s.register ws r ten) ∧
      (NotLost runId home c (s.register ws r ten) ↔ NotLost runId home c s) := by
  have hwf := h.wellFormed
  have hne : c ≠ ws := by
    rintro rfl
    obtain ⟨hd, hget, -⟩ := hwf.home home c h.mem
    rw [hfree] at hget
    cases hget
  have hcall' : (s.register ws r ten).call = .running b := by
    rw [← hcall, WsState.register, WsState.setDefault]
    cases s.wsClients.get? r <;> rfl
  have htenants : (s.setDefault r).1.wsClientTenants = s.wsClientTenants := by
    rw [WsState.setDefault]
    cases s.wsClients.get? r <;> rfl
  have htenant : (s.register ws r ten).tenantOf c = s.tenantOf c := by
    show Value.str ((((s.setDefault r).1.wsClientTenants.set ws ten).get? c).getD "default") = _
    rw [Lib.Dict.get?_set, if_neg (Ne.symm hne), htenants]
    rfl
  have hclients := clientsAt_register hwf ws r ten home
  have htake : c ∈ ((s.register ws r ten).clientsAt home).take b.next ↔
      c ∈ (s.clientsAt home).take b.next := by
    rw [hclients]
    split_ifs
    · exact Lib.mem_take_concat hne
    · rfl
  have hmem : c ∈ (s.register ws r ten).clientsAt home := by
    rw [hclients]
    split_ifs
    · exact List.mem_append_left _ h.mem
    · exact h.mem
  rw [tracksCall_running hcall', notLost_running hcall', notLost_running hcall, htake]
  refine ⟨h.frame (hwf.register hfree) hmem htenant htake.mpr, and_congr_right' ?_⟩
  exact wsClients_setDefault_iff (lt_length_of_mem_clientsAt h.mem)

/-- The entry of the run goes when the connection leaves its own list empty. -/
theorem wsClients_unregister_iff (s : WsState) (ws : ℕ) (hd : WsHandler) :
    (s.unregister ws hd).wsClients.get? runId = some home ↔ s.wsClients.get? runId = some home ∧
      ¬(hd.runId = runId ∧ ((s.clientsAt hd.list).filter (· ≠ ws)).isEmpty = true) := by
  have hlist : ((s.lists.modify hd.list (·.filter (· ≠ ws))).getD hd.list []) =
      (s.clientsAt hd.list).filter (· ≠ ws) := by
    rw [getD_modify_filter, if_pos rfl]
    rfl
  show (if ((s.lists.modify hd.list (·.filter (· ≠ ws))).getD hd.list []).isEmpty then
    s.wsClients.pop hd.runId else s.wsClients).get? runId = some home ↔ _
  rw [hlist]
  split_ifs with hempty
  · rw [Lib.Dict.get?_pop]
    split_ifs with hrun
    · exact iff_of_false not_false fun hand => hand.2 ⟨hrun, hempty⟩
    · rw [and_iff_left fun hand => hrun hand.1]
  · rw [and_iff_left fun hand => hempty hand.2]

/-- A client that has been sent to is not next. -/
theorem Tracks.not_next (h : Tracks runId tenant home c s b) (hsent : c ∈ b.sent) :
    (s.clientsAt home)[b.next]? ≠ some c := by
  intro hnext
  obtain ⟨i, hi, hic⟩ := List.mem_take_iff_getElem.mp (h.passed hsent)
  obtain ⟨hlt, hnext⟩ := List.getElem?_eq_some_iff.mp hnext
  have heq := (h.wellFormed.nodup home).getElem_inj_iff.mp (hic.trans hnext.symm)
  omega

theorem Tracks.sparesClient_disconnect {ws : ℕ} {hd : WsHandler} (h : Tracks runId tenant home c s b)
    (hcall : s.call = .running b) (hget : s.handlers.get? ws = some hd) :
    sparesClient c s (.disconnect ws) = true ↔
      ¬(hd.list = home ∧ ws ∈ (s.clientsAt home).take b.next ∧ (s.clientsAt home)[b.next]? = some c) ∧
        ¬(hd.runId = runId ∧ ((s.clientsAt hd.list).filter (· ≠ ws)).isEmpty = true) := by
  simp only [sparesClient, hcall, hget, h.clientsOf, h.clients, h.run]
  simp only [Bool.and_eq_true, Bool.not_eq_true', ← Bool.not_eq_true, decide_eq_true_eq, Option.some.injEq,
    List.contains_iff_mem, @eq_comm _ home, and_assoc]

/-- **Another connection goes**: the client is lost if that lets it pass, or if the entry of the run goes
too. -/
theorem Tracks.unregister {ws : ℕ} {hd : WsHandler} (h : Tracks runId tenant home c s b)
    (hcall : s.call = .running b) (hget : s.handlers.get? ws = some hd) (hne : ws ≠ c) :
    TracksCall runId tenant home c (s.unregister ws hd) ∧
      (NotLost runId home c (s.unregister ws hd) ↔
        NotLost runId home c s ∧ sparesClient c s (.disconnect ws) = true) := by
  have hwf := h.wellFormed
  have hcall' : (s.unregister ws hd).call = .running b := hcall
  have hclients := clientsAt_unregister s ws hd home
  have htenant : (s.unregister ws hd).tenantOf c = s.tenantOf c := by
    show Value.str (((s.wsClientTenants.pop ws).get? c).getD "default") = _
    rw [Lib.Dict.get?_pop, if_neg hne]
    rfl
  have hmem : c ∈ (s.unregister ws hd).clientsAt home := by
    rw [hclients]
    split_ifs
    · exact List.mem_filter.mpr ⟨h.mem, decide_eq_true (Ne.symm hne)⟩
    · exact h.mem
  have htake : c ∈ ((s.unregister ws hd).clientsAt home).take b.next ↔
      c ∈ (s.clientsAt home).take b.next ∨ hd.list = home ∧ ws ∈ (s.clientsAt home).take b.next ∧
        (s.clientsAt home)[b.next]? = some c := by
    rw [hclients]
    split_ifs with hlist
    · rw [Lib.mem_take_filter_ne (hwf.nodup home) (Ne.symm hne), and_iff_right hlist]
    · rw [or_iff_left fun hpass => hlist hpass.1]
  rw [tracksCall_running hcall', notLost_running hcall', notLost_running hcall]
  refine ⟨h.frame (hwf.unregister hget) hmem htenant fun hpassed => htake.mpr (.inl hpassed), ?_⟩
  rw [htake, wsClients_unregister_iff, h.sparesClient_disconnect hcall hget]
  constructor
  · rintro ⟨hkept, hreg, hrun⟩
    rw [not_or] at hkept
    refine ⟨⟨hkept.imp_right And.left, hreg⟩, ?_, hrun⟩
    obtain hsent | hnone := hkept
    · exact fun hpass => h.not_next hsent hpass.2.2
    · exact hnone.2
  · rintro ⟨⟨hkept, hreg⟩, hpass, hrun⟩
    exact ⟨hkept.imp_right fun hnone => not_or.mpr ⟨hnone, hpass⟩, hreg, hrun⟩

/-- **One action** while the call goes on. -/
theorem TracksCall.step [Py] {a : WsAction} (h : TracksCall runId tenant home c s)
    (hstay : staysConnected c s a = true) (hs : s.callStep a = some t) :
    TracksCall runId tenant home c t ∧
      (NotLost runId home c t ↔ NotLost runId home c s ∧ sparesClient c s a = true) := by
  rw [WsState.callStep] at hs
  cases hcall : s.call with
  | none => simp only [hcall] at hs; cases hs
  | finished b => simp only [hcall] at hs; cases hs
  | running b =>
      simp only [hcall] at hs
      rw [tracksCall_running hcall] at h
      cases a with
      | connect ws r ten =>
          rw [WsState.step] at hs
          split_ifs at hs with huse
          obtain rfl := Option.some.inj hs
          have hspares : sparesClient c s (.connect ws r ten) = true := by simp only [sparesClient, hcall]
          rw [and_iff_left hspares]
          exact h.register hcall (handlers_of_inUse huse)
      | disconnect ws =>
          rw [WsState.step, Option.map_eq_some_iff] at hs
          obtain ⟨hd, hget, rfl⟩ := hs
          exact h.unregister hcall hget (of_decide_eq_true hstay)
      | cleanup r =>
          obtain rfl := Option.some.inj hs
          have hcall' : ({ s with wsClients := s.wsClients.pop r } : WsState).call = .running b := hcall
          rw [tracksCall_running hcall', notLost_running hcall', notLost_running hcall, and_assoc]
          refine ⟨h.frame (h.wellFormed.cleanup r) h.mem rfl id, and_congr_right' ?_⟩
          show (s.wsClients.pop r).get? runId = some home ↔ _
          simp only [Lib.Dict.get?_pop, sparesClient, hcall, h.run, decide_eq_true_eq]
          split_ifs with hr
          · exact iff_of_false not_false fun hand => hand.2 hr
          · rw [and_iff_left hr]
      | broadcast r eventJson =>
          rw [WsState.step, hcall] at hs
          cases hs
      | sent ok =>
          rw [WsState.step, hcall] at hs
          have hspares : sparesClient c s (.sent ok) = true := by simp only [sparesClient, hcall]
          rw [and_iff_left hspares, notLost_running hcall]
          cases hsending : b.sending with
          | none => simp only [hsending] at hs; cases hs
          | some ws =>
              simp only [hsending] at hs
              obtain rfl := Option.some.inj hs
              refine Tracks.proceed ⟨h.toListed, h.run, h.event, h.clients, ?_, h.once, h.passed⟩
              simp only [staysConnected, hcall, hsending] at hstay
              cases ok with
              | true => exact h.fresh
              | false =>
                  have hne : ws ≠ c := by simpa using hstay
                  show c ∉ b.stale ++ [ws]
                  rw [List.mem_append, List.mem_singleton, not_or]
                  exact ⟨h.fresh, Ne.symm hne⟩

/-- The call has returned. -/
def CallReturned (s : WsState) : Prop := ∃ b, s.call = .finished b

/-- The client is registered for the run under the event's tenant. -/
def Registered (s : WsState) (runId : String) (tenant : Value) (c : ℕ) : Prop :=
  ∃ id, s.wsClients.get? runId = some id ∧ c ∈ s.clientsAt id ∧ s.tenantOf c = tenant

/-- The call has sent the event to the client once, and the client is registered. -/
def Reached (s : WsState) (runId : String) (tenant : Value) (c : ℕ) : Prop :=
  (∃ b, s.call = .finished b ∧ b.sent.count c = 1) ∧ Registered s runId tenant c

theorem reached_iff (hdone : CallReturned s) (h : TracksCall runId tenant home c s) :
    Reached s runId tenant c ↔ NotLost runId home c s := by
  obtain ⟨b, hcall⟩ := hdone
  rw [TracksCall, hcall] at h
  obtain ⟨hlisted, honce⟩ := h
  rw [Reached, NotLost, hcall]
  constructor
  · rintro ⟨⟨b', hb, hcount⟩, id, hid, hmem, -⟩
    cases hb
    refine ⟨List.count_pos_iff.mp (by omega), ?_⟩
    -- a client is in one list only
    obtain ⟨hd, hget, hhome⟩ := hlisted.wellFormed.home home c hlisted.mem
    obtain ⟨hd', hget', hid'⟩ := hlisted.wellFormed.home id c hmem
    rw [hget] at hget'
    obtain rfl := Option.some.inj hget'
    rw [hid, ← hid', hhome]
  · rintro ⟨hsent, hregistry⟩
    have hcount := List.count_pos_iff.mpr hsent
    exact ⟨⟨b, rfl, by omega⟩, home, hregistry, hlisted.mem, hlisted.ofTenant⟩

/-- **The beginning of the call**: no client has been passed. -/
theorem tracks_of_broadcast [Py] {eventJson : String} (h : WsWellFormed s)
    (hevent : eventTenant eventJson = .ok tenant) (hstart : s.step (.broadcast runId eventJson) = some t)
    (hclient : Registered s runId tenant c) :
    ∃ home, TracksCall runId tenant home c t ∧ NotLost runId home c t := by
  obtain ⟨home, hget, hmem, htenant⟩ := hclient
  have htracks : Tracks runId tenant home c s
      { runId := runId, tenant := tenant, clients := s.wsClients.get? runId } :=
    { wellFormed := h
      mem := hmem
      ofTenant := htenant
      run := rfl
      event := rfl
      clients := hget
      fresh := List.not_mem_nil
      once := Nat.zero_le 1
      passed := fun hsent => absurd hsent List.not_mem_nil }
  rw [WsState.step, hevent] at hstart
  split at hstart
  · cases hstart
  · cases hstart
  · rename_i hok _
    cases hok
    obtain rfl := Option.some.inj hstart
    obtain ⟨hcall, hlost⟩ := htracks.proceed
    exact ⟨home, hcall, hlost.mpr ⟨.inr List.not_mem_nil, hget⟩⟩

end client

/-! ### The claim -/

/-- **Whom a broadcast reaches**: in any state of the registries, and whatever comes and goes while the call
waits, a client of the event's tenant that is registered and stays connected is sent the event once and is
still registered exactly when every action on the way spares it. -/
theorem broadcast_reaches_iff [Py] {s₀ s t : WsState} {runId eventJson : String} {tenant : Value}
    {cs : List WsAction} {c : ℕ} (hreach : Lib.Reaches WsState.step {} s₀)
    (hevent : eventTenant eventJson = .ok tenant) (hstart : s₀.step (.broadcast runId eventJson) = some s)
    (hrun : Lib.run WsState.callStep cs s = some t) (hdone : CallReturned t)
    (hclient : Registered s₀ runId tenant c)
    (hstay : Lib.meets WsState.callStep (staysConnected c) cs s = true) :
    Reached t runId tenant c ↔ Lib.meets WsState.callStep (sparesClient c) cs s = true := by
  obtain ⟨home, htracks, hnotLost⟩ :=
    tracks_of_broadcast (wellFormed_of_reaches hreach) hevent hstart hclient
  have hI : ∀ s t a, TracksCall runId tenant home c s → staysConnected c s a = true →
      s.callStep a = some t → TracksCall runId tenant home c t := fun s t a h hq hs => (h.step hq hs).1
  have hP : ∀ s t a, TracksCall runId tenant home c s → staysConnected c s a = true →
      s.callStep a = some t →
        (NotLost runId home c t ↔ NotLost runId home c s ∧ sparesClient c s a = true) :=
    fun s t a h hq hs => (h.step hq hs).2
  have hend := Lib.run_invariant hI htracks hstay hrun
  rw [reached_iff hdone hend, Lib.iff_meets_of_quiet hI hP htracks hstay hrun, and_iff_right hnotLost]

/-- A text that holds the default tenant. -/
def eventText : String := "\x7b\"tenant_id\":\"default\"\x7d"

/-- The interpretation that decodes the text. -/
@[reducible] def eventPy : Py :=
  { asciiPy with
    loads := fun text => if text = eventText then some (.obj [("tenant_id", .str "default")]) else none }

attribute [local instance] eventPy

def threeConnects : List WsAction :=
  [.connect 1 "run_1" "default", .connect 2 "run_1" "default", .connect 3 "run_1" "default"]

/-- Three connections, and a broadcast that awaits its send to the first. -/
def beforeBroadcast : WsState := (Lib.run WsState.step threeConnects {}).getD {}

def firstSend : WsState := (beforeBroadcast.step (.broadcast "run_1" eventText)).getD {}

theorem registered_three {c : ℕ} (hc : c ∈ [1, 2, 3]) :
    Lib.Reaches WsState.step {} beforeBroadcast ∧ eventTenant eventText = .ok (.str "default") ∧
      beforeBroadcast.step (.broadcast "run_1" eventText) = some firstSend ∧
      Registered beforeBroadcast "run_1" (.str "default") c := by
  have hrun : Lib.run WsState.step threeConnects {} = some beforeBroadcast := rfl
  refine ⟨Lib.reaches_of_run hrun, rfl, rfl, 0, rfl, hc, ?_⟩
  simp only [List.mem_cons, List.not_mem_nil, or_false] at hc
  obtain rfl | rfl | rfl := hc <;> rfl

/-- The third client goes before it is passed, the first one when nobody is next. -/
def harmless : List WsAction := [.disconnect 3, .sent true, .disconnect 1, .sent true]

theorem second_client_reached : ∃ s₀ s t, Lib.Reaches WsState.step {} s₀ ∧
    s₀.step (.broadcast "run_1" eventText) = some s ∧ Lib.run WsState.callStep harmless s = some t ∧
      Reached t "run_1" (.str "default") 2 := by
  obtain ⟨hreach, hevent, hstart, hclient⟩ := registered_three (c := 2) (by decide)
  obtain ⟨t, hrun⟩ : ∃ t, Lib.run WsState.callStep harmless firstSend = some t := ⟨_, rfl⟩
  have hdone : CallReturned t := by
    obtain rfl := Option.some.inj hrun
    exact ⟨_, rfl⟩
  refine ⟨beforeBroadcast, firstSend, t, hreach, hstart, hrun, ?_⟩
  exact (broadcast_reaches_iff hreach hevent hstart hrun hdone hclient (by decide +kernel)).mpr
    (by decide +kernel)

/-- **The first client goes while the call awaits its send**: the second one is passed, and the call ends
with the third. -/
theorem departing_client_hides_next : ∃ s₀ s t, Lib.Reaches WsState.step {} s₀ ∧
    eventTenant eventText = .ok (.str "default") ∧ s₀.step (.broadcast "run_1" eventText) = some s ∧
      Registered s₀ "run_1" (.str "default") 2 ∧
      Lib.run WsState.callStep [.disconnect 1, .sent false, .sent true] s = some t ∧
      Lib.meets WsState.callStep (staysConnected 2) [.disconnect 1, .sent false, .sent true] s = true ∧
      (∃ b, t.call = .finished b ∧ b.sent = [1, 3]) ∧ ¬Reached t "run_1" (.str "default") 2 := by
  obtain ⟨hreach, hevent, hstart, hclient⟩ := registered_three (c := 2) (by decide)
  refine ⟨beforeBroadcast, firstSend, _, hreach, hevent, hstart, hclient, rfl, by decide +kernel,
    ⟨_, rfl, rfl⟩, ?_⟩
  rintro ⟨⟨b, hcall, hcount⟩, -⟩
  cases hcall
  revert hcount
  decide +kernel

end JAgent
