import Mathlib.Data.List.Dedup
import JAgent.Lib.System
import JAgent.Storage.Scoped

/-! # Tenants do not see each other

A method of the store of tenant `t` should return only rows of `t`, the three queries by run and by
conversation all of them, and no method should touch a row of another tenant.

Three methods do not keep this.  `get_events_for_conversation` filters by a column that its query
does not select, so that every row counts as one of "default"; `append_event` returns the row that
its idempotency key finds, whoever wrote it; and `upsert_conversation` updates the conversation with
the given id, whoever owns it.  `isolates` says when they do, and everything else always does
(`scoped_methods_isolate`). -/

namespace JAgent
open Lib

/-! ### Whose rows -/

/-- The columns that every query selects. -/
def StoredEvent.columns (e : StoredEvent) : StoredEvent :=
  { e with tenantId := "default", workspaceId := none, isAudit := false }

/-- The event is a row that the tenant has written. -/
def TenantDb.HasEvent (db : TenantDb) (t : String) (e : StoredEvent) : Prop :=
  ∃ row ∈ db.events, row.tenantId = t ∧ e.columns = eventFromColumns row

/-- The rows of a tenant. -/
def TenantDb.ownedBy (db : TenantDb) (t : String) : TenantDb :=
  { events := db.events.filter (·.tenantId = t)
    claims := db.claims.filter (·.tenantId = t)
    conversations := db.conversations.filter (·.tenantId = t)
    workspaces := db.workspaces.filter (·.tenantId = t)
    tenants := db.tenants.filter (·.tenantId = t) }

/-- What is returned is made of rows of the tenant. -/
def ScopedAnswer.Own (db : TenantDb) (t : String) : ScopedAnswer → Prop
  | .event e => ∀ x ∈ e, db.HasEvent t x
  | .events es => ∀ x ∈ es, db.HasEvent t x
  | .claimed runId _ => ∃ c ∈ db.claims, c.tenantId = t ∧ c.runId = runId
  | .runs rs => ∀ r ∈ rs, ∃ rows, (∀ row ∈ rows, row ∈ db.events ∧ row.tenantId = t) ∧
      r = TenantDb.summarize rows r.runId
  | .runIds ids => ∀ runId ∈ ids, ∃ row ∈ db.events, row.tenantId = t ∧ row.runId = runId
  | .conversation c => ∀ x ∈ c, x ∈ db.conversations ∧ x.tenantId = t
  | .conversations cs => ∀ x ∈ cs, x ∈ db.conversations ∧ x.tenantId = t
  | .workspace w => ∀ x ∈ w, x ∈ db.workspaces ∧ x.tenantId = t
  | .workspaces ws => ∀ x ∈ ws, x ∈ db.workspaces ∧ x.tenantId = t
  | .tenant r => r.tenantId = t
  | .number _ | .flag _ | .done | .raised _ => True

/-- The rows that the queries by run and by conversation ask for. -/
def ScopedOp.asksFor (row : LogRow) : ScopedOp → Bool
  | .getEvents runId => row.runId = runId
  | .getEventsForRuns runIds => row.runId ∈ runIds
  | .getEventsForConversation conversationId => TenantDb.ofConversation conversationId row
  | _ => false

/-- A method keeps the tenants apart: it returns rows of its tenant and numbers that depend on these
only, its queries return all of them, and the rows of the others stay as they are. -/
structure TenantDb.Isolated (db : TenantDb) (t : String) (now : ℕ) (op : ScopedOp) : Prop where
  own : (db.invoke t now op).2.Own (db.invoke t now op).1 t
  counts : ∀ n, (db.invoke t now op).2 = .number n →
    ((db.ownedBy t).invoke t now op).2 = .number n
  complete : ∀ es, (db.invoke t now op).2 = .events es → ∀ row ∈ db.events, row.tenantId = t →
    op.asksFor row = true → ∃ e ∈ es, e.columns = eventFromColumns row
  others : ∀ t', t' ≠ t → (db.invoke t now op).1.ownedBy t' = db.ownedBy t'

/-- When a method keeps the tenants apart. -/
def TenantDb.isolates (db : TenantDb) (t : String) (now : ℕ) : ScopedOp → Bool
  -- The key, if it finds a row, finds one of the tenant.
  | .appendEvent d => d.idempotencyKey.all fun key =>
      (db.events.find? (·.hasKey d.runId d.eventType key)).all (·.tenantId = t)
  -- For "default" every row of the conversation is its own; for another tenant none is.
  | .getEventsForConversation conversationId => db.events.all fun row =>
      !(ofConversation conversationId row) || decide (t = "default") == decide (row.tenantId = t)
  -- A conversation with this id is the tenant's, or the update changes nothing.
  | .upsertConversation conversationId title _ => db.conversations.all fun c =>
      c.conversationId ≠ conversationId || c.tenantId = t || (c.title = title && c.updatedAt = now)
  | _ => true

/-! ### Keys -/

/-- The primary keys of `events`, `conversations` and `workspaces`. -/
structure TenantDb.Keyed (db : TenantDb) : Prop where
  events : db.events.Pairwise fun a b => a.runId = b.runId → a.seq ≠ b.seq
  conversations : db.conversations.Pairwise (·.conversationId ≠ ·.conversationId)
  workspaces : db.workspaces.Pairwise (·.workspaceId ≠ ·.workspaceId)

section Lists
variable {α : Type}

theorem pairwise_snoc {R : α → α → Prop} {l : List α} {x : α} (h : l.Pairwise R)
    (hx : ∀ y ∈ l, R y x) : (l ++ [x]).Pairwise R := by
  refine List.pairwise_append.mpr ⟨h, List.pairwise_singleton _ _, ?_⟩
  intro y hy z hz
  rw [List.mem_singleton.mp hz]
  exact hx y hy

/-- A key that the rows have pairwise distinct determines the row. -/
theorem eq_of_key {R : α → α → Prop} {l : List α} (hl : l.Pairwise R) {a b : α} (ha : a ∈ l)
    (hb : b ∈ l) (hab : ¬ R a b) (hba : ¬ R b a) : a = b := by
  induction l with
  | nil => exact absurd ha List.not_mem_nil
  | cons x l ih =>
      obtain ⟨hx, hl⟩ := List.pairwise_cons.mp hl
      rcases List.mem_cons.mp ha with rfl | hmem
      · rcases List.mem_cons.mp hb with rfl | hmem'
        · rfl
        · exact absurd (hx b hmem') hab
      · rcases List.mem_cons.mp hb with rfl | hmem'
        · exact absurd (hx a hmem) hba
        · exact ih hl hmem hmem'

theorem pairwise_updateWhere {κ : Type} {key : α → κ} {p : α → Bool} {f : α → α} {l : List α}
    (hf : ∀ x, key (f x) = key x) (h : l.Pairwise (key · ≠ key ·)) :
    (updateWhere p f l).Pairwise (key · ≠ key ·) := by
  have hkey : ∀ x, key (if p x then f x else x) = key x := by
    intro x
    split_ifs
    · exact hf x
    · rfl
  refine List.pairwise_map.mpr (h.imp ?_)
  intro a b hab
  rwa [hkey, hkey]

/-- An UPDATE that leaves the rows in question alone is not seen. -/
theorem filter_updateWhere {p q : α → Bool} {f : α → α} {l : List α}
    (hq : ∀ x ∈ l, p x = true → (q x = false ∧ q (f x) = false) ∨ f x = x) :
    (updateWhere p f l).filter q = l.filter q := by
  induction l with
  | nil => rfl
  | cons x l ih =>
      have hl := ih fun y hy => hq y (List.mem_cons_of_mem _ hy)
      unfold updateWhere at hl ⊢
      rw [List.map_cons, List.filter_cons, List.filter_cons, hl]
      by_cases hp : p x = true
      · rcases hq x List.mem_cons_self hp with ⟨h1, h2⟩ | h
        · simp [hp, h1, h2]
        · simp [h]
      · simp [hp]

/-- An UPDATE that is not seen has changed none of the rows in question. -/
theorem eq_of_filter_updateWhere {p q : α → Bool} {f : α → α} {l : List α}
    (h : (updateWhere p f l).filter q = l.filter q) (hf : ∀ x, q (f x) = q x) {x : α} (hx : x ∈ l)
    (hp : p x = true) (hq : q x = true) : f x = x := by
  have hcomp : (q ∘ fun x => if p x then f x else x) = q := by
    funext y
    simp only [Function.comp_apply]
    split_ifs
    · exact hf y
    · rfl
  unfold updateWhere at h
  rw [List.filter_map, hcomp] at h
  have hall := List.map_inj_left.mp (h.trans (List.map_id _).symm) x (List.mem_filter.mpr ⟨hx, hq⟩)
  simpa [hp] using hall

theorem mem_updateWhere {p : α → Bool} {f : α → α} {l : List α} {x : α} (hx : x ∈ l)
    (hp : p x = true) : f x ∈ updateWhere p f l :=
  List.mem_map.mpr ⟨x, hx, by simp [hp]⟩

end Lists

/-! ### What a method writes -/

/-- The tables after a method: nothing is written, or one row of the tenant. -/
inductive TenantDb.Writes (db : TenantDb) (t : String) (db' : TenantDb) : Prop
  | nothing : db'.events = db.events → db'.claims = db.claims →
      db'.conversations = db.conversations → db'.workspaces = db.workspaces → Writes db t db'
  | event (row : LogRow) (claims : List ClaimRow) : row.tenantId = t →
      (∀ r ∈ db.events, r.runId = row.runId → r.seq ≠ row.seq) → (∀ c ∈ claims, c.tenantId = t) →
      db'.events = db.events ++ [row] → db'.claims = db.claims ++ claims →
      db'.conversations = db.conversations → db'.workspaces = db.workspaces → Writes db t db'
  | conversation (c : ConversationRow) : c.tenantId = t →
      (∀ x ∈ db.conversations, x.conversationId ≠ c.conversationId) → db'.events = db.events →
      db'.claims = db.claims → db'.conversations = db.conversations ++ [c] →
      db'.workspaces = db.workspaces → Writes db t db'
  | setConversation (conversationId : String) (f : ConversationRow → ConversationRow) :
      (∀ x, (f x).conversationId = x.conversationId ∧ (f x).tenantId = x.tenantId) →
      (∀ x ∈ db.conversations, x.conversationId = conversationId → x.tenantId = t) →
      db' = db.setConversation conversationId f → Writes db t db'
  | workspace (w : WorkspaceRow) : w.tenantId = t →
      (∀ x ∈ db.workspaces, x.workspaceId ≠ w.workspaceId) → db'.events = db.events →
      db'.claims = db.claims → db'.conversations = db.conversations →
      db'.workspaces = db.workspaces ++ [w] → Writes db t db'
  | setWorkspace (workspaceId : String) (f : WorkspaceRow → WorkspaceRow) :
      (∀ x, (f x).workspaceId = x.workspaceId ∧ (f x).tenantId = x.tenantId) →
      (∀ x ∈ db.workspaces, x.workspaceId = workspaceId → x.tenantId = t) →
      db' = db.setWorkspace workspaceId f → Writes db t db'

namespace TenantDb
variable {db db' : TenantDb} {t : String} {now : ℕ}

theorem Writes.keyed (h : db.Writes t db') (hk : db.Keyed) : db'.Keyed := by
  cases h with
  | nothing h1 h2 h3 h4 => exact ⟨h1 ▸ hk.events, h3 ▸ hk.conversations, h4 ▸ hk.workspaces⟩
  | event row claims _ hfresh _ h1 _ h3 h4 =>
      exact ⟨h1 ▸ pairwise_snoc hk.events hfresh, h3 ▸ hk.conversations, h4 ▸ hk.workspaces⟩
  | conversation c _ hfresh h1 _ h3 h4 =>
      exact ⟨h1 ▸ hk.events, h3 ▸ pairwise_snoc hk.conversations hfresh, h4 ▸ hk.workspaces⟩
  | setConversation id f hf _ h =>
      rw [h]
      exact ⟨hk.events, pairwise_updateWhere (fun x => (hf x).1) hk.conversations, hk.workspaces⟩
  | workspace w _ hfresh h1 _ h3 h4 =>
      exact ⟨h1 ▸ hk.events, h3 ▸ hk.conversations, h4 ▸ pairwise_snoc hk.workspaces hfresh⟩
  | setWorkspace id f hf _ h =>
      rw [h]
      exact ⟨hk.events, hk.conversations, pairwise_updateWhere (fun x => (hf x).1) hk.workspaces⟩

/-- The rows of the other tenants are not written. -/
theorem Writes.others (h : db.Writes t db') {t' : String} (ht : t' ≠ t) :
    db'.events.filter (·.tenantId = t') = db.events.filter (·.tenantId = t') ∧
    db'.claims.filter (·.tenantId = t') = db.claims.filter (·.tenantId = t') ∧
    db'.conversations.filter (·.tenantId = t') = db.conversations.filter (·.tenantId = t') ∧
    db'.workspaces.filter (·.tenantId = t') = db.workspaces.filter (·.tenantId = t') := by
  cases h with
  | nothing h1 h2 h3 h4 => exact ⟨h1 ▸ rfl, h2 ▸ rfl, h3 ▸ rfl, h4 ▸ rfl⟩
  | event row claims hrow _ hclaims h1 h2 h3 h4 =>
      have hnil : claims.filter (·.tenantId = t') = [] := by
        rw [List.filter_eq_nil_iff]
        intro c hc
        simp [hclaims c hc, Ne.symm ht]
      refine ⟨?_, ?_, h3 ▸ rfl, h4 ▸ rfl⟩
      · rw [h1, List.filter_append]
        simp [hrow, Ne.symm ht]
      · rw [h2, List.filter_append, hnil, List.append_nil]
  | conversation c hc _ h1 h2 h3 h4 =>
      refine ⟨h1 ▸ rfl, h2 ▸ rfl, ?_, h4 ▸ rfl⟩
      rw [h3, List.filter_append]
      simp [hc, Ne.symm ht]
  | setConversation id f hf hown h =>
      rw [h]
      refine ⟨rfl, rfl, filter_updateWhere ?_, rfl⟩
      intro x hx hp
      have hxt : x.tenantId = t := hown x hx (by simpa using hp)
      exact .inl (by simp [(hf x).2, hxt, Ne.symm ht])
  | workspace w hw _ h1 h2 h3 h4 =>
      refine ⟨h1 ▸ rfl, h2 ▸ rfl, h3 ▸ rfl, ?_⟩
      rw [h4, List.filter_append]
      simp [hw, Ne.symm ht]
  | setWorkspace id f hf hown h =>
      rw [h]
      refine ⟨rfl, rfl, rfl, filter_updateWhere ?_⟩
      intro x hx hp
      have hxt : x.tenantId = t := hown x hx (by simpa using hp)
      exact .inl (by simp [(hf x).2, hxt, Ne.symm ht])

/-- The next number of a run is above those that are there. -/
theorem seq_lt_nextSeq {runId : String} {row : LogRow} (h : row ∈ db.events)
    (hrun : row.runId = runId) : row.seq < db.nextSeq runId := by
  have hmem : row.seq ∈ (db.tables.rowsOf runId).map (·.seq) := by
    refine List.mem_map.mpr ⟨row.toEventRow, ?_, rfl⟩
    refine List.mem_filter.mpr ⟨List.mem_map.mpr ⟨row, h, rfl⟩, ?_⟩
    simpa using hrun
  unfold nextSeq
  cases hmax : ((db.tables.rowsOf runId).map (·.seq)).max? with
  | none =>
      rw [List.max?_eq_none_iff] at hmax
      rw [hmax] at hmem
      exact absurd hmem List.not_mem_nil
  | some m =>
      have hle := (List.max?_eq_some_iff.mp hmax).2 _ hmem
      rw [Option.getD_some]
      omega

theorem writes_appendEvent (d : EventDraft) (hd : d.tenantId = t) :
    db.Writes t (db.appendEvent d now).1 := by
  unfold appendEvent
  split
  · exact .nothing rfl rfl rfl rfl
  · refine .event (db.rowFor d now) [] hd ?_ (by simp) rfl ?_ rfl rfl
    · intro r hr hrun
      exact Nat.ne_of_lt (seq_lt_nextSeq hr hrun)
    · exact (List.append_nil _).symm

theorem writes_claimClientRequest (c : ClaimRow) (payload : Obj) (w : Option String)
    (hc : c.tenantId = t) : db.Writes t (db.claimClientRequest c payload w now).1 := by
  unfold claimClientRequest
  split
  · exact .nothing rfl rfl rfl rfl
  · dsimp only
    split_ifs with hclash
    · exact .nothing rfl rfl rfl rfl
    · refine .event ⟨c.runStarted payload w, now⟩ [c] hc ?_ (by simpa using hc) rfl rfl rfl rfl
      intro r hr hrun hseq
      apply hclash
      simp only [Bool.or_eq_true]
      refine .inr (List.any_eq_true.mpr ⟨r.toEventRow, ?_, by simpa using hseq⟩)
      refine List.mem_filter.mpr ⟨List.mem_map.mpr ⟨r, hr, rfl⟩, by simpa using hrun⟩

/-- A conversation that the tenant has found is the only one with its id. -/
theorem tenant_of_ownConversation (hk : db.Keyed) {id : String} {c : ConversationRow}
    (h : db.ownConversation t id = some c) :
    ∀ x ∈ db.conversations, x.conversationId = id → x.tenantId = t := by
  unfold ownConversation getConversation at h
  rw [Option.filter_eq_some_iff] at h
  obtain ⟨hfind, ht⟩ := h
  intro x hx hid
  have hc : c.conversationId = id := by simpa using List.find?_some hfind
  have heq : x = c := by
    apply eq_of_key hk.conversations hx (List.mem_of_find?_eq_some hfind)
    · simp [hid, hc]
    · simp [hid, hc]
  rw [heq]
  simpa using ht

theorem ownWorkspace_eq_some {id : String} {w : WorkspaceRow} (h : db.ownWorkspace t id = some w) :
    w ∈ db.workspaces ∧ w.workspaceId = id ∧ w.tenantId = t := by
  unfold ownWorkspace getWorkspace at h
  rw [Option.filter_eq_some_iff] at h
  exact ⟨List.mem_of_find?_eq_some h.1, by simpa using List.find?_some h.1, by simpa using h.2⟩

theorem tenant_of_ownWorkspace (hk : db.Keyed) {id : String} {w : WorkspaceRow}
    (h : db.ownWorkspace t id = some w) : ∀ x ∈ db.workspaces, x.workspaceId = id → x.tenantId = t := by
  obtain ⟨hmem, hid, ht⟩ := ownWorkspace_eq_some h
  intro x hx hxid
  have heq : x = w := by
    apply eq_of_key hk.workspaces hx hmem
    · simp [hid, hxid]
    · simp [hid, hxid]
  rw [heq, ht]

/-- An UPDATE behind a look-up of the conversation. -/
theorem writes_setConversation (hk : db.Keyed) {id : String} {c : ConversationRow}
    (h : db.ownConversation t id = some c) {f : ConversationRow → ConversationRow}
    (hf : ∀ x, (f x).conversationId = x.conversationId ∧ (f x).tenantId = x.tenantId) :
    db.Writes t (db.setConversation id f) :=
  .setConversation id f hf (tenant_of_ownConversation hk h) rfl

theorem writes_createWorkspace (w : WorkspaceRow) (hw : w.tenantId = t) :
    db.Writes t (db.createWorkspace w).1 := by
  unfold createWorkspace
  split_ifs with h
  · exact .nothing rfl rfl rfl rfl
  · refine .workspace w hw ?_ rfl rfl rfl rfl
    intro x hx heq
    exact h (List.any_eq_true.mpr ⟨x, hx, by simp [heq]⟩)

theorem writes_scopedUpdate (hk : db.Keyed) (id : String) (u : WorkspaceUpdate) :
    db.Writes t (db.scopedUpdate t now id u).1 := by
  unfold scopedUpdate
  split
  · exact .nothing rfl rfl rfl rfl
  · rename_i w hw
    split
    · exact .nothing rfl rfl rfl rfl
    · split_ifs
      · exact .nothing rfl rfl rfl rfl
      · refine .setWorkspace id _ ?_ (tenant_of_ownWorkspace hk hw) rfl
        exact fun x => ⟨rfl, rfl⟩

/-- **What a method writes**: a row of its tenant, unless it is `upsert_conversation`. -/
theorem invoke_writes (hk : db.Keyed) {op : ScopedOp}
    (hop : ∀ id title user, op ≠ .upsertConversation id title user) :
    db.Writes t (db.invoke t now op).1 := by
  have same : db.Writes t db := .nothing rfl rfl rfl rfl
  cases op with
  | appendEvent d => exact writes_appendEvent _ rfl
  | claimClientRequest conv req run payload w => exact writes_claimClientRequest _ _ _ rfl
  | deleteConversation id =>
      simp only [invoke]
      split_ifs with h
      · obtain ⟨c, hc⟩ := Option.isSome_iff_exists.mp h
        exact writes_setConversation hk hc fun x => ⟨rfl, rfl⟩
      · exact same
  | updateConversation id title status =>
      simp only [invoke]
      split_ifs with h
      · exact same
      · obtain ⟨c, hc⟩ := Option.ne_none_iff_exists'.mp (by simpa using h)
        exact writes_setConversation hk hc fun x => ⟨rfl, rfl⟩
  | incrementMessageCount id =>
      simp only [invoke]
      split_ifs with h
      · obtain ⟨c, hc⟩ := Option.isSome_iff_exists.mp h
        exact writes_setConversation hk hc fun x => ⟨rfl, rfl⟩
      · exact same
  | upsertConversation id title user => exact absurd rfl (hop id title user)
  | createWorkspace w =>
      simp only [invoke]
      split_ifs with h
      · exact same
      · exact writes_createWorkspace w (by simpa using h)
  | updateWorkspace id u => exact writes_scopedUpdate hk id u
  | deleteWorkspace id =>
      simp only [invoke]
      split
      · exact same
      · rename_i w hw
        refine .setWorkspace id _ ?_ (tenant_of_ownWorkspace hk hw) rfl
        exact fun x => ⟨rfl, rfl⟩
  | ensureTenant => exact .nothing rfl rfl rfl rfl
  | evictRunCaches id => exact .nothing rfl rfl rfl rfl
  | _ => exact same

theorem tenants_invoke {op : ScopedOp} {t' : String} (ht : t' ≠ t) :
    (db.invoke t now op).1.tenants.filter (·.tenantId = t') = db.tenants.filter (·.tenantId = t') := by
  cases op with
  | ensureTenant =>
      simp only [invoke, scopedTenant]
      split_ifs
      · apply filter_updateWhere
        intro x _ hp
        have hx : x.tenantId = t := by simpa using hp
        exact .inl (by simp [hx, Ne.symm ht])
      · rw [List.filter_append]
        simp [Ne.symm ht]
  | appendEvent d =>
      simp only [invoke, appendEvent]
      split <;> rfl
  | claimClientRequest conv req run payload w =>
      simp only [invoke, claimClientRequest]
      split
      · rfl
      · split_ifs <;> rfl
  | deleteConversation id | updateConversation id _ _ | incrementMessageCount id =>
      simp only [invoke]
      split_ifs <;> rfl
  | upsertConversation id title user =>
      simp only [invoke, upsertConversation]
      split_ifs <;> rfl
  | createWorkspace w =>
      simp only [invoke]
      split_ifs
      · rfl
      · simp only [createWorkspace]
        split_ifs <;> rfl
  | updateWorkspace id u =>
      simp only [invoke, scopedUpdate]
      split
      · rfl
      · split
        · rfl
        · split_ifs <;> rfl
  | deleteWorkspace id =>
      simp only [invoke]
      split <;> rfl
  | _ => rfl

theorem Keyed.invoke (hk : db.Keyed) (op : ScopedOp) : (db.invoke t now op).1.Keyed := by
  by_cases hop : ∃ id title user, op = .upsertConversation id title user
  · obtain ⟨id, title, user, rfl⟩ := hop
    simp only [TenantDb.invoke, upsertConversation]
    split_ifs with h
    · exact ⟨hk.events, pairwise_updateWhere (fun _ => rfl) hk.conversations, hk.workspaces⟩
    · refine ⟨hk.events, pairwise_snoc hk.conversations ?_, hk.workspaces⟩
      intro x hx heq
      exact h (List.any_eq_true.mpr ⟨x, hx, by simpa using heq⟩)
  · refine (invoke_writes hk ?_).keyed hk
    intro id title user heq
    exact hop ⟨id, title, user, heq⟩

theorem Keyed.reaches {db₀ : TenantDb} (h0 : db₀.Keyed) (h : Reaches scopedStep db₀ db) : db.Keyed := by
  refine h.invariant h0 ?_
  intro db db' m _ hk hs
  unfold scopedStep at hs
  split_ifs at hs
  rw [← Option.some.inj hs]
  exact hk.invoke _

/-! ### The other tenants -/

theorem others_of_ne_upsert (hk : db.Keyed) {op : ScopedOp}
    (hop : ∀ id title user, op ≠ .upsertConversation id title user) {t' : String} (ht : t' ≠ t) :
    (db.invoke t now op).1.ownedBy t' = db.ownedBy t' := by
  have hwrites : db.Writes t (db.invoke t now op).1 := invoke_writes hk hop
  obtain ⟨h1, h2, h3, h4⟩ := hwrites.others ht
  unfold ownedBy
  rw [h1, h2, h3, h4, tenants_invoke ht]

/-- `upsert_conversation` leaves the others alone when it does not find a row of theirs to change. -/
theorem others_upsert_iff {id title user : String} :
    (∀ t', t' ≠ t → (db.upsertConversation id title user t now).ownedBy t' = db.ownedBy t') ↔
      db.isolates t now (.upsertConversation id title user) = true := by
  simp only [isolates, List.all_eq_true, ne_eq, Bool.or_eq_true, Bool.and_eq_true, decide_eq_true_eq]
  constructor
  · intro h c hc
    by_contra hcon
    simp only [not_or, not_not] at hcon
    obtain ⟨⟨hid, ht⟩, hsame⟩ := hcon
    have hany : db.conversations.any (·.conversationId = id) = true :=
      List.any_eq_true.mpr ⟨c, hc, by simpa using hid⟩
    have heq := congrArg TenantDb.conversations (h c.tenantId ht)
    simp only [upsertConversation, hany, if_true, setConversation, ownedBy] at heq
    have hfix := eq_of_filter_updateWhere heq (fun _ => rfl) hc (by simpa using hid) (by simp)
    apply hsame
    rw [ConversationRow.mk.injEq] at hfix
    exact ⟨hfix.2.2.2.1.symm, hfix.2.2.2.2.2.2.1.symm⟩
  · intro h t' ht
    unfold upsertConversation
    split_ifs
    · unfold ownedBy setConversation
      congr 1
      apply filter_updateWhere
      intro x hx hp
      rcases h x hx with (hid | hown) | hsame
      · exact absurd (by simpa using hp) hid
      · exact .inl (by simp [hown, Ne.symm ht])
      · refine .inr ?_
        rw [← hsame.1, ← hsame.2]
    · unfold ownedBy
      congr 1
      rw [List.filter_append]
      simp [Ne.symm ht]

/-! ### What is returned -/

theorem hasEvent_of_mem {row : LogRow} (h : row ∈ db.events) (ht : row.tenantId = t) :
    db.HasEvent t (eventFromRow row) := ⟨row, h, ht, rfl⟩

/-- Events made of rows of the tenant. -/
theorem hasEvent_of_map {rows : List LogRow} (h : ∀ row ∈ rows, row ∈ db.events ∧ row.tenantId = t) :
    ∀ e ∈ rows.map eventFromRow, db.HasEvent t e := by
  intro e he
  obtain ⟨row, hrow, rfl⟩ := List.mem_map.mp he
  exact hasEvent_of_mem (h row hrow).1 (h row hrow).2

/-- Events that pass the filter on their tenant. -/
theorem hasEvent_of_filter {rows : List LogRow} (h : ∀ row ∈ rows, row ∈ db.events) :
    ∀ e ∈ (rows.map eventFromRow).filter (·.tenantId = t), db.HasEvent t e := by
  intro e he
  obtain ⟨he, ht⟩ := List.mem_filter.mp he
  obtain ⟨row, hrow, rfl⟩ := List.mem_map.mp he
  exact hasEvent_of_mem (h row hrow) (of_decide_eq_true ht)

theorem hasEvent_of_find {p : LogRow → Bool} :
    ∀ e ∈ ((db.events.find? p).map eventFromRow).filter (·.tenantId = t), db.HasEvent t e := by
  intro e he
  obtain ⟨he, ht⟩ := Option.filter_eq_some_iff.mp he
  obtain ⟨row, hrow, rfl⟩ := Option.map_eq_some_iff.mp he
  exact hasEvent_of_mem (List.mem_of_find?_eq_some hrow) (of_decide_eq_true ht)

/-- A row of the tenant that the key of an event identifies. -/
theorem tenant_of_hasEvent (hk : db.Keyed) {row : LogRow} (hrow : row ∈ db.events) {e : StoredEvent}
    (he : e.columns = eventFromColumns row) (h : db.HasEvent t e) : row.tenantId = t := by
  obtain ⟨row', hrow', ht, he'⟩ := h
  rw [he] at he'
  have hrun : row.runId = row'.runId := congrArg StoredEvent.runId he'
  have hseq : row.seq = row'.seq := congrArg StoredEvent.seq he'
  have heq : row = row' := by
    apply eq_of_key hk.events hrow hrow'
    · intro hne
      exact hne hrun hseq
    · intro hne
      exact hne hrun.symm hseq.symm
  rw [heq, ht]

theorem own_appendEvent_iff (hk : db.Keyed) (d : EventDraft) :
    (db.invoke t now (.appendEvent d)).2.Own (db.invoke t now (.appendEvent d)).1 t ↔
      db.isolates t now (.appendEvent d) = true := by
  simp only [invoke, appendEvent, isolates, ScopedAnswer.Own]
  cases hkey : d.idempotencyKey with
  | none =>
      simp only [Option.bind_none, Option.all_none, iff_true]
      intro x hx
      cases hx
      exact hasEvent_of_mem (List.mem_append_right _ (List.mem_singleton.mpr rfl)) rfl
  | some key =>
      cases hfind : db.events.find? (·.hasKey d.runId d.eventType key) with
      | none =>
          simp only [Option.bind_some, findByIdempotencyKey, hfind, Option.map_none, Option.all_some,
            Option.all_none, iff_true]
          intro x hx
          cases hx
          exact hasEvent_of_mem (List.mem_append_right _ (List.mem_singleton.mpr rfl)) rfl
      | some row =>
          simp only [Option.bind_some, findByIdempotencyKey, hfind, Option.map_some, Option.all_some,
            decide_eq_true_eq]
          constructor
          · intro h
            exact tenant_of_hasEvent hk (List.mem_of_find?_eq_some hfind) rfl (h _ rfl)
          · intro ht x hx
            cases hx
            exact hasEvent_of_mem (List.mem_of_find?_eq_some hfind) ht

/-- The rows of the run list are the tenant's. -/
theorem mem_runRows {w : Option String} {row : LogRow} (h : row ∈ db.runRows (some t) w) :
    row ∈ db.events ∧ row.tenantId = t := by
  obtain ⟨hmem, hp⟩ := List.mem_filter.mp h
  simp only [Bool.and_eq_true, clause, Option.all_some, decide_eq_true_eq] at hp
  exact ⟨hmem, hp.1.2.symm⟩

theorem mem_of_page {α : Type} {limit offset : ℤ} {l : List α} {x : α} (h : x ∈ page limit offset l) :
    x ∈ l := by
  unfold page at h
  split_ifs at h
  · exact List.mem_of_mem_drop h
  · exact List.mem_of_mem_drop (List.mem_of_mem_take h)

theorem mem_runIds {rows : List LogRow} {runId : String} (h : runId ∈ runIds rows) :
    ∃ row ∈ rows, row.runId = runId :=
  List.mem_map.mp (List.mem_dedup.mp h)

/-- A summary is made of the rows of the tenant. -/
theorem own_listRuns {limit offset : ℤ} {w : Option String} :
    (ScopedAnswer.runs (db.listRuns limit offset (some t) w)).Own db t := by
  intro r hr
  have hmem := mem_of_page hr
  rw [List.mem_mergeSort] at hmem
  obtain ⟨runId, -, rfl⟩ := List.mem_map.mp hmem
  exact ⟨db.runRows (some t) w, fun row hrow => mem_runRows hrow, rfl⟩

theorem own_claimClientRequest (conv req run : String) (payload : Obj) (w : Option String) :
    (db.invoke t now (.claimClientRequest conv req run payload w)).2.Own
      (db.invoke t now (.claimClientRequest conv req run payload w)).1 t := by
  simp only [invoke, claimClientRequest]
  split
  · rename_i c hc
    refine ⟨c, List.mem_of_find?_eq_some hc, ?_, rfl⟩
    have hfor := List.find?_some hc
    simp only [ClaimRow.isFor, Bool.and_eq_true, decide_eq_true_eq] at hfor
    exact hfor.1.1
  · split_ifs
    · exact trivial
    · exact ⟨_, List.mem_append_right _ (List.mem_singleton.mpr rfl), rfl, rfl⟩

theorem own_createWorkspace (w : WorkspaceRow) :
    (db.invoke t now (.createWorkspace w)).2.Own (db.invoke t now (.createWorkspace w)).1 t := by
  simp only [invoke]
  split_ifs with hw
  · exact trivial
  · simp only [createWorkspace]
    split_ifs with hclash
    · cases hfind : (db.getWorkspace w.workspaceId).filter (·.tenantId = w.tenantId) with
      | none => exact trivial
      | some x =>
          simp only
          split_ifs with hx
          · exact trivial
          · intro y hy
            cases hy
            obtain ⟨hmem, -, -⟩ := ownWorkspace_eq_some hfind
            exact ⟨hmem, by simpa using hx⟩
    · simp only
      split_ifs
      intro y hy
      cases hy
      exact ⟨List.mem_append_right _ (List.mem_singleton.mpr rfl), by simpa using hw⟩

theorem updated_eq_some {w w' : WorkspaceRow} {u : WorkspaceUpdate} (h : updated w u now = some w') :
    w' = { w with name := w'.name, description := w'.description, scope := w'.scope, updatedAt := now } := by
  simp only [updated, Option.bind_eq_bind, Option.bind_eq_some_iff, Option.pure_def,
    Option.some.injEq] at h
  obtain ⟨n, -, d, -, sc, -, rfl⟩ := h
  rfl

theorem own_updateWorkspace (id : String) (u : WorkspaceUpdate) :
    (db.invoke t now (.updateWorkspace id u)).2.Own (db.invoke t now (.updateWorkspace id u)).1 t := by
  simp only [invoke, scopedUpdate]
  split
  · intro x hx
    cases hx
  · rename_i w hw
    obtain ⟨hmem, hid, ht⟩ := ownWorkspace_eq_some hw
    split
    · exact trivial
    · rename_i w' hw'
      split_ifs
      · exact trivial
      · intro x hx
        cases hx
        have heq := updated_eq_some hw'
        refine ⟨?_, ?_⟩
        · rw [heq]
          exact mem_updateWhere hmem (by simpa using hid)
        · rw [heq]
          exact ht

theorem own_deleteWorkspace (id : String) :
    (db.invoke t now (.deleteWorkspace id)).2.Own (db.invoke t now (.deleteWorkspace id)).1 t := by
  simp only [invoke]
  split
  · intro x hx
    cases hx
  · rename_i w hw
    obtain ⟨hmem, hid, ht⟩ := ownWorkspace_eq_some hw
    intro x hx
    cases hx
    exact ⟨mem_updateWhere hmem (by simpa using hid), ht⟩

/-- The filter of `get_events_for_conversation` looks at the default of a missing column. -/
theorem filter_eventFromColumns (rows : List LogRow) :
    (rows.map eventFromColumns).filter (·.tenantId = t) =
      if t = "default" then rows.map eventFromColumns else [] := by
  split_ifs with h
  · rw [List.filter_eq_self]
    intro e he
    obtain ⟨row, -, rfl⟩ := List.mem_map.mp he
    simp [eventFromColumns, h]
  · rw [List.filter_eq_nil_iff]
    intro e he
    obtain ⟨row, -, rfl⟩ := List.mem_map.mp he
    simp [eventFromColumns, Ne.symm h]

theorem mem_getEventsForConversation {id : String} {e : StoredEvent} :
    e ∈ db.getEventsForConversation id ↔
      ∃ row ∈ db.events, ofConversation id row = true ∧ eventFromColumns row = e := by
  simp only [getEventsForConversation, List.mem_map, List.mem_mergeSort, List.mem_filter, and_assoc]

/-- Everything that is returned is the tenant's, by the methods that do not depend on others. -/
theorem own_of_regular {op : ScopedOp} (happend : ∀ d, op ≠ .appendEvent d)
    (hconv : ∀ id, op ≠ .getEventsForConversation id) :
    (db.invoke t now op).2.Own (db.invoke t now op).1 t := by
  cases op with
  | appendEvent d => exact absurd rfl (happend d)
  | getEventsForConversation id => exact absurd rfl (hconv id)
  | claimClientRequest conv req run payload w => exact own_claimClientRequest conv req run payload w
  | getEvents runId =>
      apply hasEvent_of_filter
      intro row hrow
      exact (List.mem_filter.mp (List.mem_mergeSort.mp hrow)).1
  | getEventRange runId lo hi =>
      apply hasEvent_of_filter
      intro row hrow
      exact (List.mem_filter.mp (List.mem_mergeSort.mp hrow)).1
  | getEventsForRuns ids =>
      simp only [invoke, getEventsForRuns]
      split_ifs
      · intro e he
        exact absurd he List.not_mem_nil
      · apply hasEvent_of_map
        intro row hrow
        obtain ⟨hmem, hp⟩ := List.mem_filter.mp (List.mem_mergeSort.mp hrow)
        simp only [Bool.and_eq_true, clause, Option.all_some, decide_eq_true_eq] at hp
        exact ⟨hmem, hp.2.symm⟩
  | getWorkspaceEvents id =>
      simp only [invoke]
      split_ifs
      · intro e he
        exact absurd he List.not_mem_nil
      · apply hasEvent_of_map
        intro row hrow
        obtain ⟨hmem, hp⟩ := List.mem_filter.mp (List.mem_mergeSort.mp hrow)
        simp only [Bool.and_eq_true, clause, Option.all_some, decide_eq_true_eq] at hp
        exact ⟨hmem, hp.2.symm⟩
  | listRuns limit offset w => exact own_listRuns
  | listAllRunIds =>
      intro runId hid
      obtain ⟨row, hrow, hrun⟩ := mem_runIds hid
      obtain ⟨hmem, ht⟩ := mem_runRows hrow
      exact ⟨row, hmem, ht, hrun⟩
  | findByIdempotencyKey run et key => exact hasEvent_of_find
  | findConfirmationById run id => exact hasEvent_of_find
  | getConversation id =>
      intro x hx
      obtain ⟨hfind, ht⟩ := Option.filter_eq_some_iff.mp hx
      exact ⟨List.mem_of_find?_eq_some hfind, by simpa using ht⟩
  | updateConversation id title status =>
      simp only [invoke]
      split_ifs <;> exact trivial
  | listConversations limit offset user =>
      intro x hx
      have hmem := mem_of_page hx
      rw [List.mem_mergeSort] at hmem
      obtain ⟨hmem, hp⟩ := List.mem_filter.mp hmem
      simp only [Bool.and_eq_true, clause, Option.all_some, decide_eq_true_eq] at hp
      exact ⟨hmem, hp.2.symm⟩
  | getWorkspace id =>
      intro x hx
      obtain ⟨hmem, -, ht⟩ := ownWorkspace_eq_some hx
      exact ⟨hmem, ht⟩
  | listWorkspaces =>
      intro x hx
      obtain ⟨hmem, hp⟩ := List.mem_filter.mp (List.mem_mergeSort.mp hx)
      simp only [Bool.and_eq_true, clause, Option.all_some, decide_eq_true_eq] at hp
      exact ⟨hmem, hp.1.symm⟩
  | createWorkspace w => exact own_createWorkspace w
  | updateWorkspace id u => exact own_updateWorkspace id u
  | deleteWorkspace id => exact own_deleteWorkspace id
  | ensureTenant => rfl
  | totalRunCount _ | deleteConversation _ | totalConversationCount _ | upsertConversation _ _ _
  | incrementMessageCount _ | getLatestSeq _ | evictRunCaches _ => exact trivial

/-! ### Numbers -/

theorem runRows_ownedBy (w : Option String) :
    (db.ownedBy t).runRows (some t) w = db.runRows (some t) w := by
  unfold runRows ownedBy
  rw [List.filter_filter]
  apply List.filter_congr
  intro row _
  by_cases ht : row.tenantId = t
  · simp [ht]
  · simp [ht, clause, Ne.symm ht]

theorem activeConversations_ownedBy (user : Option String) :
    (db.ownedBy t).activeConversations user (some t) = db.activeConversations user (some t) := by
  unfold activeConversations ownedBy
  rw [List.filter_filter]
  apply List.filter_congr
  intro c _
  by_cases ht : c.tenantId = t
  · simp [ht]
  · simp [ht, clause, Ne.symm ht]

theorem mem_ownEvents {runId : String} {e : StoredEvent} : e ∈ db.ownEvents t runId ↔
    ∃ row ∈ db.events, row.runId = runId ∧ row.tenantId = t ∧ eventFromRow row = e := by
  simp only [ownEvents, getEvents, List.mem_filter, List.mem_map, List.mem_mergeSort,
    decide_eq_true_eq]
  constructor
  · rintro ⟨⟨row, ⟨hrow, hrun⟩, rfl⟩, ht⟩
    exact ⟨row, hrow, hrun, ht, rfl⟩
  · rintro ⟨row, hrow, hrun, ht, rfl⟩
    exact ⟨⟨row, ⟨hrow, hrun⟩, rfl⟩, ht⟩

/-- The largest number of a list does not depend on its order. -/
theorem max?_congr {l l' : List ℕ} (h : ∀ n, n ∈ l ↔ n ∈ l') : l.max? = l'.max? := by
  cases hl : l.max? with
  | none =>
      rw [List.max?_eq_none_iff] at hl
      have hnil : l' = [] := List.eq_nil_iff_forall_not_mem.mpr fun n hn => by
        have := (h n).mpr hn
        rw [hl] at this
        exact absurd this List.not_mem_nil
      rw [hnil]
      rfl
  | some m =>
      obtain ⟨hm, hle⟩ := List.max?_eq_some_iff.mp hl
      symm
      rw [List.max?_eq_some_iff]
      exact ⟨(h m).mp hm, fun n hn => hle n ((h n).mpr hn)⟩

theorem latestSeq_ownedBy (runId : String) :
    (((db.ownedBy t).ownEvents t runId).map (·.seq)).max? = ((db.ownEvents t runId).map (·.seq)).max? := by
  apply max?_congr
  intro n
  simp only [List.mem_map, mem_ownEvents, ownedBy, List.mem_filter, decide_eq_true_eq]
  constructor
  · rintro ⟨e, ⟨row, ⟨hrow, -⟩, hrun, ht, he⟩, hn⟩
    exact ⟨e, ⟨row, hrow, hrun, ht, he⟩, hn⟩
  · rintro ⟨e, ⟨row, hrow, hrun, ht, he⟩, hn⟩
    exact ⟨e, ⟨row, ⟨hrow, ht⟩, hrun, ht, he⟩, hn⟩

theorem counts_invoke {op : ScopedOp} {n : ℕ} (h : (db.invoke t now op).2 = .number n) :
    ((db.ownedBy t).invoke t now op).2 = .number n := by
  cases op with
  | totalRunCount w =>
      simp only [invoke, totalRunCount] at h ⊢
      rw [runRows_ownedBy, h]
  | totalConversationCount user =>
      simp only [invoke, totalConversationCount] at h ⊢
      rw [activeConversations_ownedBy, h]
  | getLatestSeq runId =>
      simp only [invoke] at h ⊢
      rw [latestSeq_ownedBy, h]
  | claimClientRequest conv req run payload w =>
      simp only [invoke] at h
      generalize (db.claimClientRequest ⟨t, conv, req, run⟩ payload w now).2 = r at h
      cases r <;> cases h
  | updateConversation id title status =>
      simp only [invoke] at h
      split_ifs at h
  | createWorkspace w =>
      simp only [invoke] at h
      split_ifs at h
      split at h
      · cases h
      · split_ifs at h
  | updateWorkspace id u =>
      simp only [invoke, scopedUpdate] at h
      split at h
      · cases h
      · split at h
        · cases h
        · split_ifs at h
  | deleteWorkspace id =>
      simp only [invoke] at h
      split at h <;> cases h
  | _ => cases h

/-! ### All rows of the tenant -/

theorem complete_of_regular {op : ScopedOp} (hconv : ∀ id, op ≠ .getEventsForConversation id)
    {es : List StoredEvent} (h : (db.invoke t now op).2 = .events es) {row : LogRow}
    (hrow : row ∈ db.events) (ht : row.tenantId = t) (hask : op.asksFor row = true) :
    ∃ e ∈ es, e.columns = eventFromColumns row := by
  cases op with
  | getEvents runId =>
      cases h
      refine ⟨eventFromRow row, mem_ownEvents.mpr ⟨row, hrow, ?_, ht, rfl⟩, rfl⟩
      simpa [ScopedOp.asksFor] using hask
  | getEventsForRuns ids =>
      have hmem : row.runId ∈ ids := by simpa [ScopedOp.asksFor] using hask
      have hne : ids.isEmpty = false := by
        rw [List.isEmpty_eq_false_iff]
        exact List.ne_nil_of_mem hmem
      simp only [invoke, getEventsForRuns, hne, Bool.false_eq_true, if_false] at h
      cases h
      refine ⟨eventFromRow row, List.mem_map.mpr ⟨row, ?_, rfl⟩, rfl⟩
      rw [List.mem_mergeSort]
      exact List.mem_filter.mpr ⟨hrow, by simp [hmem, clause, ht]⟩
  | getEventsForConversation id => exact absurd rfl (hconv id)
  | _ => cases hask

theorem conversation_isolated_iff (hk : db.Keyed) (id : String) :
    db.Isolated t now (.getEventsForConversation id) ↔
      db.isolates t now (.getEventsForConversation id) = true := by
  have hans : (db.invoke t now (.getEventsForConversation id)).2 =
      .events (if t = "default" then db.getEventsForConversation id else []) := by
    simp only [invoke]
    rw [getEventsForConversation, filter_eventFromColumns]
  simp only [isolates, List.all_eq_true, Bool.or_eq_true, Bool.not_eq_true', beq_iff_eq,
    decide_eq_decide]
  constructor
  · intro h row hrow
    cases hof : ofConversation id row with
    | false => exact .inl rfl
    | true =>
        refine .inr ⟨fun ht => ?_, fun ht => ?_⟩
        · have hown := h.own
          rw [hans, if_pos ht] at hown
          exact tenant_of_hasEvent hk hrow rfl
            (hown _ (mem_getEventsForConversation.mpr ⟨row, hrow, hof, rfl⟩))
        · by_contra hne
          rw [if_neg hne] at hans
          obtain ⟨e, he, -⟩ := h.complete _ hans row hrow ht hof
          exact absurd he List.not_mem_nil
  · intro h
    refine ⟨?_, fun n hn => counts_invoke hn, ?_, ?_⟩
    · rw [hans]
      split_ifs with ht
      · intro e he
        obtain ⟨row, hrow, hof, rfl⟩ := mem_getEventsForConversation.mp he
        rcases h row hrow with hfalse | hiff
        · rw [hof] at hfalse
          cases hfalse
        · exact ⟨row, hrow, hiff.mp ht, rfl⟩
      · intro e he
        exact absurd he List.not_mem_nil
    · intro es hes row hrow ht hof
      change ofConversation id row = true at hof
      rcases h row hrow with hfalse | hiff
      · rw [hof] at hfalse
        cases hfalse
      · rw [hans, if_pos (hiff.mpr ht)] at hes
        cases hes
        exact ⟨_, mem_getEventsForConversation.mpr ⟨row, hrow, hof, rfl⟩, rfl⟩
    · intro t' ht
      exact others_of_ne_upsert hk (by simp) ht

/-- A method keeps the tenants apart exactly when `isolates` says so. -/
theorem isolated_iff (hk : db.Keyed) (op : ScopedOp) :
    db.Isolated t now op ↔ db.isolates t now op = true := by
  cases op with
  | getEventsForConversation id => exact conversation_isolated_iff hk id
  | appendEvent d =>
      constructor
      · intro h
        exact (own_appendEvent_iff hk d).mp h.own
      · intro h
        refine ⟨(own_appendEvent_iff hk d).mpr h, fun n hn => counts_invoke hn, ?_, ?_⟩
        · intro es hes
          cases hes
        · exact fun t' ht => others_of_ne_upsert hk (by simp) ht
  | upsertConversation id title user =>
      constructor
      · intro h
        exact others_upsert_iff.mp h.others
      · intro h
        refine ⟨trivial, fun n hn => counts_invoke hn, ?_, others_upsert_iff.mpr h⟩
        intro es hes
        cases hes
  | _ =>
      refine ⟨fun _ => rfl, fun _ => ⟨?_, fun n hn => counts_invoke hn, ?_, ?_⟩⟩
      · exact own_of_regular (by simp) (by simp)
      · intro es hes row hrow ht hask
        exact complete_of_regular (by simp) hes hrow ht hask
      · exact fun t' ht => others_of_ne_upsert hk (by simp) ht

end TenantDb

/-- **Tenant isolation**: after every history of operations, a method that a tenant calls keeps the
tenants apart if and only if `isolates` holds of it. -/
theorem scoped_methods_isolate {db₀ db : TenantDb} (h0 : db₀.Keyed) (h : Reaches scopedStep db₀ db)
    (t : String) (now : ℕ) (op : ScopedOp) :
    db.Isolated t now op ↔ db.isolates t now op = true :=
  TenantDb.isolated_iff (h0.reaches h) op

/-- A message of conversation "c" in run "r". -/
def messageDraft : EventDraft :=
  { runId := "r", eventType := .conversation, payload := [("conversation_id", .str "c")] }

/-- The tenant "acme" has written an event of the conversation. -/
def acmeHistory : List (String × ScopedOp × ℕ) := [("acme", .appendEvent messageDraft, 0)]

/-- The tables of an empty database. -/
theorem keyed_empty : TenantDb.Keyed {} := ⟨.nil, .nil, .nil⟩

/-- "acme" does not get its event back by the conversation, and "default" gets it. -/
theorem conversation_goes_to_default : ∃ db, Reaches scopedStep {} db ∧
    (∃ row ∈ db.events, row.tenantId = "acme" ∧ TenantDb.ofConversation "c" row = true) ∧
    (db.invoke "acme" 1 (.getEventsForConversation "c")).2 = .events [] ∧
    ¬ db.Isolated "acme" 1 (.getEventsForConversation "c") ∧
    ¬ db.Isolated "default" 1 (.getEventsForConversation "c") := by
  obtain ⟨db, hs, hp⟩ := exists_reaches_of_run scopedStep acmeHistory {}
    (fun db => (db.events.any fun row => row.tenantId = "acme" && TenantDb.ofConversation "c" row) &&
      !(db.isolates "acme" 1 (.getEventsForConversation "c")) &&
      !(db.isolates "default" 1 (.getEventsForConversation "c"))) (by rfl)
  simp only [Bool.and_eq_true, List.any_eq_true, decide_eq_true_eq, Bool.not_eq_true'] at hp
  obtain ⟨⟨⟨row, hrow, ht, hof⟩, hacme⟩, hdefault⟩ := hp
  have hk : db.Keyed := keyed_empty.reaches hs
  refine ⟨db, hs, ⟨row, hrow, ht, hof⟩, ?_, ?_, ?_⟩
  · simp only [TenantDb.invoke]
    rw [TenantDb.getEventsForConversation, TenantDb.filter_eventFromColumns, if_neg (by decide)]
  · rw [TenantDb.isolated_iff hk, hacme]
    simp
  · rw [TenantDb.isolated_iff hk, hdefault]
    simp

/-- "acme" gets its event back by the run. -/
theorem run_goes_to_its_tenant : ∃ db, Reaches scopedStep {} db ∧ db.events.length = 1 ∧
    db.Isolated "acme" 1 (.getEvents "r") ∧
    ¬ db.Isolated "acme" 1 (.getEventsForConversation "c") := by
  obtain ⟨db, hs, hp⟩ := exists_reaches_of_run scopedStep acmeHistory {}
    (fun db => db.events.length = 1 && !(db.isolates "acme" 1 (.getEventsForConversation "c")))
    (by rfl)
  simp only [Bool.and_eq_true, decide_eq_true_eq, Bool.not_eq_true'] at hp
  refine ⟨db, hs, hp.1, (scoped_methods_isolate keyed_empty hs "acme" 1 _).mpr rfl, ?_⟩
  rw [scoped_methods_isolate keyed_empty hs, hp.2]
  simp

end JAgent
