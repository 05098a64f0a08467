import JAgent.Lib.Dict
import JAgent.Lib.System

/-! # Sessions of MCP servers

`MCPServerManager` keeps the sessions of all servers in one dictionary.  A plain server has its
session under its name; a tenant-scoped server has one session for each tenant, under the name, an
"@" and the tenant.  A tenant gets the session under the name it asks for, else the one under the
name with its own tenant.

The name comes from the tool call and may spell the key of another tenant's session
(`name_spells_foreign_session`).  A name that does not is answered with a session of the tenant or
of nobody (`sessions_stay_with_their_tenant`). -/

namespace JAgent
open Lib

/-- `MCPConnectionConfig`, as far as a connection is concerned. -/
structure McpConfig where
  name : String
  tenantScoped : Bool := false
deriving DecidableEq

/-- `_MCPSession`, with the tenant that it was opened for. -/
structure McpSession where
  server : String
  openedFor : Option String := none
  toolNames : List String := []
deriving DecidableEq

/-- How a connection goes. -/
inductive ConnectOutcome where
  /-- Nothing is connected: no transport, a bad environment, an error or a timeout. -/
  | refused
  /-- The session is open, and `list_tools` raises. -/
  | unlisted
  | listed (toolNames : List String)
deriving DecidableEq

/-- `_sessions`. -/
abbrev McpSessions := Dict String McpSession

/-- The key of the session of a tenant. -/
def tenantKey (name tenantId : String) : String := name ++ "@" ++ tenantId

/-- A tenant that is neither None nor empty. -/
def tenantOf (tenantId : Option String) : Option String := tenantId.filter (· ≠ "")

namespace McpSessions
variable (s : McpSessions)

/-- The key and the session of a connection; `none` when a tenant-scoped server gets no tenant. -/
def slot (cfg : McpConfig) (tenantId : Option String) : Option (String × McpSession) :=
  if cfg.tenantScoped then
    (tenantOf tenantId).map fun t => (tenantKey cfg.name t, { server := cfg.name, openedFor := some t })
  else some (cfg.name, { server := cfg.name })

/-- `connect_server`, and whether it reports success. -/
def connectServer (cfg : McpConfig) (tenantId : Option String) (o : ConnectOutcome) :
    McpSessions × Bool :=
  match slot cfg tenantId, o with
  | none, _ | some _, .refused => (s, false)
  | some (key, e), .unlisted => (s.set key e, false)
  | some (key, e), .listed toolNames => (s.set key { e with toolNames := toolNames }, true)

/-- `disconnect_server`: the session of the name and those of its tenants. -/
def disconnectServer (name : String) : McpSessions :=
  s.popMany (s.keys.filter fun key =>
    key = name || (name ++ "@").toList.isPrefixOf key.toList)

/-- The session of a tenant-scoped server for a tenant; it may have to be opened. -/
def openForTenant (cfg : McpConfig) (t : String) (o : ConnectOutcome) :
    McpSessions × Option McpSession :=
  match s.get? (tenantKey cfg.name t) with
  | some e => (s, some e)
  | none =>
      let r := s.connectServer cfg (some t) o
      (r.1, if r.2 then r.1.get? (tenantKey cfg.name t) else none)

/-- `get_session_for_tenant`. -/
def getSessionForTenant (servers : List McpConfig) (name : String) (tenantId : Option String)
    (o : ConnectOutcome) : McpSessions × Option McpSession :=
  match s.get? name with
  | some e => (s, some e)
  | none => match servers.find? (·.name = name), tenantOf tenantId with
      | some cfg, some t => if cfg.tenantScoped then s.openForTenant cfg t o else (s, none)
      | _, _ => (s, none)

/-- The session whose tools are listed. -/
def sessionForTools (name : String) (tenantId : Option String) : Option McpSession :=
  (s.get? name).or ((tenantOf tenantId).bind fun t => s.get? (tenantKey name t))

/-- `get_tool_names_for_tenant`. -/
def getToolNamesForTenant (name : String) (tenantId : Option String) : List String :=
  (s.sessionForTools name tenantId).elim [] (·.toolNames)

end McpSessions

/-- What happens to the manager. -/
inductive McpMove where
  | connect (cfg : McpConfig) (tenantId : Option String) (o : ConnectOutcome)
  | disconnect (name : String)
  | lookUp (name : String) (tenantId : Option String) (o : ConnectOutcome)

/-- The sessions after a move. -/
def mcpStep (servers : List McpConfig) (s : McpSessions) : McpMove → Option McpSessions
  | .connect cfg tenantId o => some (s.connectServer cfg tenantId o).1
  | .disconnect name => some (s.disconnectServer name)
  | .lookUp name tenantId o => some (s.getSessionForTenant servers name tenantId o).1

/-! ### Whose session -/

/-- The session is the tenant's or nobody's. -/
def McpSession.MayUse (tenantId : Option String) (e : McpSession) : Prop :=
  ∀ t, e.openedFor = some t → tenantId = some t

/-- What a tenant gets for a name: the session is one it may use, the tools that are listed are those
of a session it may use, and they are the tools of the session it gets. -/
structure McpSessions.Private (s : McpSessions) (servers : List McpConfig) (name : String)
    (tenantId : Option String) : Prop where
  session : ∀ o e, (s.getSessionForTenant servers name tenantId o).2 = some e → e.MayUse tenantId
  tools : ∀ e, s.sessionForTools name tenantId = some e → e.MayUse tenantId
  listed : ∀ o e, (s.getSessionForTenant servers name tenantId o).2 = some e →
    (s.getSessionForTenant servers name tenantId o).1.getToolNamesForTenant name tenantId = e.toolNames

/-- The name spells the key of an open session of another tenant: by itself, or with the tenant when
no session has the name as its key. -/
def McpSessions.spellsForeign (s : McpSessions) (name : String) (tenantId : Option String) : Bool :=
  s.values.any fun e => e.openedFor.any fun t => tenantId ≠ some t &&
    (tenantKey e.server t = name ||
      ((s.get? name).isNone && (tenantOf tenantId).any fun a => tenantKey e.server t = tenantKey name a))

/-! ### Keys of sessions -/

/-- The session of a tenant is under its key. -/
def McpSessions.Filed (s : McpSessions) : Prop :=
  ∀ key e t, s.get? key = some e → e.openedFor = some t → key = tenantKey e.server t

section Filed
variable {s : McpSessions} {servers : List McpConfig} {cfg : McpConfig} {name key : String}
  {tenantId : Option String} {o : ConnectOutcome} {e : McpSession}

theorem slot_filed (h : McpSessions.slot cfg tenantId = some (key, e)) {t : String}
    (ht : e.openedFor = some t) : key = tenantKey e.server t ∧ tenantOf tenantId = some t := by
  unfold McpSessions.slot at h
  split_ifs at h
  · obtain ⟨a, ha, heq⟩ := Option.map_eq_some_iff.mp h
    cases heq
    cases ht
    exact ⟨rfl, ha⟩
  · cases h
    cases ht

theorem connectServer_filed (h : s.Filed) : (s.connectServer cfg tenantId o).1.Filed := by
  unfold McpSessions.connectServer
  split
  · exact h
  · exact h
  · rename_i key e hslot
    intro key' e' t hget ht
    rw [Dict.get?_set] at hget
    split_ifs at hget with hk
    · cases hget
      rw [← hk]
      exact (slot_filed hslot ht).1
    · exact h key' e' t hget ht
  · rename_i key e toolNames hslot
    intro key' e' t hget ht
    rw [Dict.get?_set] at hget
    split_ifs at hget with hk
    · cases hget
      rw [← hk]
      exact (slot_filed hslot ht).1
    · exact h key' e' t hget ht

theorem disconnectServer_filed (h : s.Filed) : (s.disconnectServer name).Filed := by
  intro key e t hget ht
  unfold McpSessions.disconnectServer at hget
  rw [Dict.get?_popMany] at hget
  split_ifs at hget
  exact h key e t hget ht

theorem openForTenant_filed (h : s.Filed) (t : String) : (s.openForTenant cfg t o).1.Filed := by
  unfold McpSessions.openForTenant
  split
  · exact h
  · exact connectServer_filed h

theorem getSessionForTenant_filed (h : s.Filed) :
    (s.getSessionForTenant servers name tenantId o).1.Filed := by
  unfold McpSessions.getSessionForTenant
  split
  · exact h
  · split
    · split_ifs
      · exact openForTenant_filed h _
      · exact h
    · exact h

theorem filed_of_reaches (h : Reaches (mcpStep servers) .empty s) : s.Filed := by
  refine h.invariant ?_ ?_
  · intro key e t hget
    cases hget
  · intro s u m _ hi hs
    cases m with
    | connect cfg tenantId o =>
        cases hs
        exact connectServer_filed hi
    | disconnect name =>
        cases hs
        exact disconnectServer_filed hi
    | lookUp name tenantId o =>
        cases hs
        exact getSessionForTenant_filed hi

theorem tenantKey_ne (name t : String) : tenantKey name t ≠ name := by
  intro h
  have hlen := congrArg String.length h
  simp only [tenantKey, String.length_append] at hlen
  have hone : ("@" : String).length = 1 := rfl
  omega

theorem eq_of_tenantOf {t : String} (h : tenantOf tenantId = some t) : tenantId = some t :=
  (Option.filter_eq_some_iff.mp h).1

theorem mem_values_of_get? (h : s.get? key = some e) : e ∈ s.values :=
  List.mem_map.mpr ⟨(key, e), Dict.mem_items_iff.mpr h, rfl⟩

/-- The key of a session that is stored is not that of another tenant. -/
theorem mayUse_of_name (hf : s.Filed) (hs : s.spellsForeign name tenantId = false)
    (h : s.get? name = some e) : e.MayUse tenantId := by
  intro t ht
  by_contra hne
  have hspell : s.spellsForeign name tenantId = true := by
    refine List.any_eq_true.mpr ⟨e, mem_values_of_get? h, ?_⟩
    simp [ht, hne, (hf name e t h ht).symm]
  rw [hs] at hspell
  cases hspell

theorem mayUse_of_tenantKey (hf : s.Filed) (hs : s.spellsForeign name tenantId = false) {a : String}
    (hname : s.get? name = none) (ha : tenantOf tenantId = some a)
    (h : s.get? (tenantKey name a) = some e) : e.MayUse tenantId := by
  intro t ht
  by_contra hne
  have hspell : s.spellsForeign name tenantId = true := by
    refine List.any_eq_true.mpr ⟨e, mem_values_of_get? h, ?_⟩
    simp [ht, hne, hname, ha, (hf _ e t h ht).symm]
  rw [hs] at hspell
  cases hspell

theorem mayUse_of_tools (hf : s.Filed) (hs : s.spellsForeign name tenantId = false)
    (h : s.sessionForTools name tenantId = some e) : e.MayUse tenantId := by
  unfold McpSessions.sessionForTools at h
  cases hname : s.get? name with
  | some e' =>
      rw [hname] at h
      cases h
      exact mayUse_of_name hf hs hname
  | none =>
      rw [hname, Option.none_or] at h
      obtain ⟨a, ha, hget⟩ := Option.bind_eq_some_iff.mp h
      exact mayUse_of_tenantKey hf hs hname ha hget

/-- A session that is opened for a tenant is its own. -/
theorem openForTenant_cases {a : String} (hscoped : cfg.tenantScoped = true)
    (ha : tenantOf tenantId = some a) (h : (s.openForTenant cfg a o).2 = some e) :
    ((s.openForTenant cfg a o).1 = s ∧ s.get? (tenantKey cfg.name a) = some e) ∨
      (e.openedFor = some a ∧ (s.openForTenant cfg a o).1 = s.set (tenantKey cfg.name a) e) := by
  have hne : a ≠ "" := by simpa using (Option.filter_eq_some_iff.mp ha).2
  have hslot : McpSessions.slot cfg (some a) =
      some (tenantKey cfg.name a, { server := cfg.name, openedFor := some a }) := by
    simp [McpSessions.slot, hscoped, tenantOf, hne]
  unfold McpSessions.openForTenant at h ⊢
  cases hkey : s.get? (tenantKey cfg.name a) with
  | some e' =>
      rw [hkey] at h
      exact .inl ⟨rfl, h⟩
  | none =>
      simp only [hkey, McpSessions.connectServer, hslot] at h ⊢
      cases o with
      | refused => cases h
      | unlisted => cases h
      | listed toolNames =>
          simp only [if_true, Dict.get?_set, Option.some.injEq] at h
          exact .inr ⟨by rw [← h], by rw [← h]⟩

/-- Where the session that a tenant gets comes from. -/
theorem getSessionForTenant_cases (h : (s.getSessionForTenant servers name tenantId o).2 = some e) :
    ((s.getSessionForTenant servers name tenantId o).1 = s ∧ s.sessionForTools name tenantId = some e) ∨
      ∃ a, tenantOf tenantId = some a ∧ s.get? name = none ∧ e.openedFor = some a ∧
        (s.getSessionForTenant servers name tenantId o).1 = s.set (tenantKey name a) e := by
  unfold McpSessions.sessionForTools
  cases hname : s.get? name with
  | some e' =>
      simp only [McpSessions.getSessionForTenant, hname] at h ⊢
      exact .inl ⟨trivial, h⟩
  | none =>
      simp only [McpSessions.getSessionForTenant, hname] at h ⊢
      cases hcfg : servers.find? (·.name = name) with
      | none =>
          rw [hcfg] at h
          cases h
      | some cfg =>
          cases ha : tenantOf tenantId with
          | none =>
              rw [hcfg, ha] at h
              cases h
          | some a =>
              simp only [hcfg, ha] at h ⊢
              have hcname : cfg.name = name := by simpa using List.find?_some hcfg
              split_ifs at h ⊢ with hscoped
              rcases openForTenant_cases hscoped ha h with ⟨hsame, hget⟩ | ⟨hopen, hset⟩
              · rw [hcname] at hget
                exact .inl ⟨hsame, hget⟩
              · rw [hcname] at hset
                exact .inr ⟨a, rfl, trivial, hopen, hset⟩

theorem private_iff (hf : s.Filed) (name : String) (tenantId : Option String) :
    s.Private servers name tenantId ↔ s.spellsForeign name tenantId = false := by
  constructor
  · intro h
    by_contra hspell
    obtain ⟨e, he, hany⟩ := List.any_eq_true.mp (Bool.not_eq_false _ ▸ hspell)
    obtain ⟨t, ht, hp⟩ := Option.any_eq_true _ _ |>.mp hany
    simp only [Bool.and_eq_true, Bool.or_eq_true, decide_eq_true_eq, ne_eq] at hp
    obtain ⟨hne, hkey⟩ := hp
    obtain ⟨⟨key, e'⟩, hitem, rfl⟩ := List.mem_map.mp he
    have hget := Dict.mem_items_iff.mp hitem
    have hk := hf key e' t hget ht
    -- The session is stored where the tenant looks.
    have htools : s.sessionForTools name tenantId = some e' := by
      unfold McpSessions.sessionForTools
      rcases hkey with heq | ⟨hnone, hother⟩
      · rw [← heq, ← hk, hget, Option.some_or]
      · obtain ⟨a, ha, heq⟩ := Option.any_eq_true _ _ |>.mp hother
        have heq := of_decide_eq_true heq
        rw [Option.isNone_iff_eq_none.mp hnone, Option.none_or, ha, Option.bind_some, ← heq, ← hk, hget]
    exact hne (h.tools e' htools t ht)
  · intro hs
    refine ⟨?_, fun e he => mayUse_of_tools hf hs he, ?_⟩
    · intro o e he
      rcases getSessionForTenant_cases he with ⟨-, htools⟩ | ⟨a, ha, -, hopen, -⟩
      · exact mayUse_of_tools hf hs htools
      · intro t ht
        rw [hopen] at ht
        rw [← ht]
        exact eq_of_tenantOf ha
    · intro o e he
      unfold McpSessions.getToolNamesForTenant
      rcases getSessionForTenant_cases he with ⟨hsame, htools⟩ | ⟨a, ha, hname, -, hset⟩
      · rw [hsame, htools]
        rfl
      · rw [hset]
        unfold McpSessions.sessionForTools
        rw [Dict.get?_set, if_neg (tenantKey_ne name a), hname, ha, Option.none_or, Option.bind_some,
          Dict.get?_set, if_pos rfl]
        rfl

end Filed

/-- **MCP session isolation**: after every sequence of connects, disconnects and look-ups, a tenant
gets for a name a session and tools it may use if and only if the name does not spell the key of an
open session of another tenant. -/
theorem sessions_stay_with_their_tenant {servers : List McpConfig} {s : McpSessions}
    (h : Reaches (mcpStep servers) .empty s) (name : String) (tenantId : Option String) :
    s.Private servers name tenantId ↔ s.spellsForeign name tenantId = false :=
  private_iff (filed_of_reaches h) name tenantId

/-- A tenant-scoped server, with a session for tenant "b". -/
def notesServers : List McpConfig := [{ name := "notes", tenantScoped := true }]

def notesSession : McpSession :=
  { server := "notes", openedFor := some "b", toolNames := ["read_note"] }

/-- The tenant "a" asks for the server "notes@b" and gets the session of the tenant "b". -/
theorem name_spells_foreign_session : ∃ s, Reaches (mcpStep notesServers) .empty s ∧
    (s.getSessionForTenant notesServers "notes@b" (some "a") .refused).2 = some notesSession ∧
    notesSession.openedFor = some "b" ∧
    s.getToolNamesForTenant "notes@b" (some "a") = ["read_note"] := by
  obtain ⟨s, hs, hp⟩ := exists_reaches_of_run (mcpStep notesServers)
    [.lookUp "notes" (some "b") (.listed ["read_note"])] .empty
    (fun s => (s.getSessionForTenant notesServers "notes@b" (some "a") .refused).2 = some notesSession &&
      s.getToolNamesForTenant "notes@b" (some "a") = ["read_note"]) (by decide)
  simp only [Bool.and_eq_true, decide_eq_true_eq] at hp
  exact ⟨s, hs, hp.1, rfl, hp.2⟩

/-- Under its own name the server does not give the tenant "a" that session. -/
theorem own_name_is_private : ∃ s, Reaches (mcpStep notesServers) .empty s ∧
    s.keys = ["notes@b"] ∧ s.Private notesServers "notes" (some "a") := by
  obtain ⟨s, hs, hp⟩ := exists_reaches_of_run (mcpStep notesServers)
    [.lookUp "notes" (some "b") (.listed ["read_note"])] .empty
    (fun s => s.keys = ["notes@b"] && s.spellsForeign "notes" (some "a") = false) (by decide)
  simp only [Bool.and_eq_true, decide_eq_true_eq] at hp
  exact ⟨s, hs, hp.1, (sessions_stay_with_their_tenant hs "notes" (some "a")).mpr hp.2⟩

end JAgent
