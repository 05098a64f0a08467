import JAgent.Storage.Durability

/-! # What the callbacks hear

`on_append` callbacks are invoked after the COMMIT has been awaited and the lock has been released,
one after the other, each of them awaited.  A callback should hear every committed event of a run
once, in the order of `seq`.

It does not.  A call that is cancelled while it waits for its COMMIT leaves the COMMIT in the queue,
and nobody announces the event (`committed_event_is_not_heard`); a call that is cancelled in a
callback does not invoke the next ones; while a call waits in a callback another call may commit and
get ahead of it in the callbacks after that one; and a transaction that a failing read of another
call ends after the INSERT leaves an event that is announced and not there.  Without these a callback
has always heard the first events of the run, and all of them once no call is announcing
(`subscribers_see_the_log`). -/

namespace JAgent
open Lib

/-- The rows of a run that a callback has been invoked with. -/
def Store.heard (s : Store) (k : ℕ) (runId : String) : List EventRow :=
  (s.published.filter fun p => p.1 = k && p.2.runId = runId).map Prod.snd

/-- The call has committed an event of the run and is not through with the callbacks. -/
def StoreTask.announcing (t : StoreTask) (runId : String) : Bool :=
  match t.stage, t.mail with
  | .writing row _ .committing, some .done => row.runId = runId
  | .publishing row _, _ => row.runId = runId
  | _, _ => false

/-- The row of the call is in the open transaction. -/
def StoreTask.hasInserted (t : StoreTask) : Bool :=
  match t.stage, t.mail with
  | .writing _ _ .inserting, some .done | .writing _ _ .committing, none => true
  | _, _ => false

/-- No event is lost for the callbacks and none is overtaken: a call is not cancelled while its
COMMIT is on its way or callbacks are left to invoke, a callback does not return for an event while
an earlier one of the run waits for the same or an earlier callback, and a failing read does not roll
back a row that is about to be committed. -/
def keepsNews (s : Store) : StoreMove → Bool
  | .execute f => f ≠ .rollback || s.queue.head?.any (·.op.isWrite) || !s.tasks.any (·.hasInserted)
  | .cancel i => match s.tasks[i]? with
      | some ⟨_, .writing _ _ .committing, mail⟩ => mail.any (· ≠ .done)
      | some ⟨_, .publishing _ k, _⟩ => s.callbacks ≤ k + 1
      | _ => true
  | .called i => match s.tasks[i]? with
      | some ⟨_, .publishing row k, _⟩ => s.callbacks ≤ k + 1 || s.tasks.all fun t => match t.stage with
          | .publishing row' k' => row'.runId ≠ row.runId || row.seq ≤ row'.seq || k < k'
          | _ => true
      | _ => true
  | _ => true

/-! ### An event that nobody hears -/

/-- An append is cancelled while it waits for its COMMIT. -/
def unheardCommit : List StoreMove :=
  [StoreMove.call (.append plainDraft), .acquire 0, .execute .none, .resume 0, .execute .none, .resume 0,
    .execute .none, .resume 0, .execute .none, .resume 0, .cancel 0, .execute .none, .execute .none,
    .resume 0]

/-- The event is committed, nothing is left to do, and the callback has not been invoked. -/
theorem committed_event_is_not_heard : ∃ s, Reaches storeStep { callbacks := 1 } s ∧
    s.db.committed.events.map (·.seq) = [1] ∧ s.heard 0 "r" = [] ∧ s.queue = [] ∧
    s.tasks = [{ call := .append plainDraft, stage := .raised }] := by
  obtain ⟨s, hs, hp⟩ := exists_reaches_of_run storeStep unheardCommit { callbacks := 1 }
    (fun s => s.db.committed.events.map (·.seq) = [1] && s.heard 0 "r" = [] && s.queue = [] &&
      s.tasks = [{ call := .append plainDraft, stage := .raised }]) (by rfl)
  simp only [Bool.and_eq_true, decide_eq_true_eq] at hp
  obtain ⟨⟨⟨h1, h2⟩, h3⟩, h4⟩ := hp
  exact ⟨s, hs, h1, h2, h3, h4⟩

/-! ### Rows in the order of their numbers -/

theorem Tables.Kept.increasing {t : Tables} (h : t.Kept) (runId : String) :
    (t.rowsOf runId).Pairwise (·.seq < ·.seq) := by
  have hp : ((t.rowsOf runId).map (·.seq)).Pairwise (· < ·) := by
    rw [h.numbered]
    exact List.pairwise_lt_range'
  exact List.pairwise_map.mp hp

/-- The least row that a prefix misses comes next. -/
theorem prefix_snoc {l p : List EventRow} {row : EventRow} (hp : p <+: l)
    (hl : l.Pairwise (·.seq < ·.seq)) (hrow : row ∈ l) (hnot : row ∉ p)
    (hleast : ∀ x ∈ l, x.seq < row.seq → x ∈ p) : p ++ [row] <+: l := by
  obtain ⟨rest, rfl⟩ := hp
  have hrest : row ∈ rest := by
    rcases List.mem_append.mp hrow with h | h
    · exact absurd h hnot
    · exact h
  cases rest with
  | nil => exact absurd hrest List.not_mem_nil
  | cons x rest =>
      rcases List.mem_cons.mp hrest with rfl | hmem
      · exact ⟨rest, by simp⟩
      · -- `x` stands before `row` and is not in the prefix.
        obtain ⟨_, hx, hcross⟩ := List.pairwise_append.mp hl
        have hlt : x.seq < row.seq := (List.pairwise_cons.mp hx).1 row hmem
        have hmem' : x ∈ p := hleast x (by simp) hlt
        exact absurd (hcross x hmem' x List.mem_cons_self) (Nat.lt_irrefl _)

theorem mem_heard {s : Store} {k : ℕ} {runId : String} {row : EventRow} :
    row ∈ s.heard k runId ↔ (k, row) ∈ s.published ∧ row.runId = runId := by
  unfold Store.heard
  rw [List.mem_map]
  constructor
  · rintro ⟨⟨k', row'⟩, hp, rfl⟩
    simp only [List.mem_filter, Bool.and_eq_true, decide_eq_true_eq] at hp
    obtain ⟨hmem, rfl, hrun⟩ := hp
    exact ⟨hmem, hrun⟩
  · rintro ⟨hmem, hrun⟩
    exact ⟨(k, row), by simp [hmem, hrun], rfl⟩

/-! ### The transaction of a writer holds its row -/

/-- What the tables hold of the row of a call. -/
def StoreTask.Tracks (t : StoreTask) (db : Db) : Prop :=
  match t.stage, t.mail with
  | .writing _ _ (.beginning _), some .done | .writing _ _ .numbering, _ | .writing _ _ .claiming, _
  | .writing _ _ .inserting, none => db.Clean
  | .writing row _ .inserting, some .done | .writing row _ .committing, none =>
      db.view.events = db.committed.events ++ [row]
  | .writing row _ .committing, some .done => ∃ rows, db.committed.events = rows ++ [row]
  | _, _ => True

namespace Db
variable {db : Db} {op : SqlOp} {f : Fault}

theorem committed_execWith (h : op ≠ .commit) : (db.execWith op f).1.committed = db.committed := by
  cases f with
  | none =>
      cases op with
      | commit => exact absurd rfl h
      | begin | insertEvent _ | insertClaim _ =>
          simp only [Db.execWith, Db.exec]
          split_ifs <;> rfl
      | rollback | select _ | fetch _ => rfl
  | abort => rfl
  | rollback => rfl

theorem Clean.insertClaim (h : db.Clean) (c : ClaimRow) : (db.execWith (.insertClaim c) f).1.Clean := by
  cases f with
  | none =>
      simp only [Db.execWith, Db.exec]
      split_ifs
      · exact h
      · exact h
  | abort => exact h
  | rollback => rfl

end Db

section Tracking
variable {t : StoreTask} {db : Db} {op : SqlOp} {f : Fault}

/-- Reads of other calls do not disturb a call, unless they end its transaction. -/
theorem StoreTask.Tracks.read (h : t.Tracks db) (hop : op.isWrite = false)
    (hf : f ≠ .rollback ∨ t.hasInserted = false) : t.Tracks (db.execWith op f).1 := by
  rcases db.execWith_read hop f with he | he
  · rwa [he]
  · have hsame : f ≠ .rollback → (db.execWith op f).1 = db := by
      intro hne
      cases f with
      | none => cases op <;> first | rfl | exact absurd hop (by simp [SqlOp.isWrite])
      | abort => rfl
      | rollback => exact absurd rfl hne
    rcases hf with hf | hf
    · rwa [hsame hf]
    · rw [he]
      unfold StoreTask.Tracks at h ⊢
      unfold StoreTask.hasInserted at hf
      split at h
      · rfl
      · rfl
      · rfl
      · rfl
      · simp_all
      · simp_all
      · exact h
      · trivial

/-- A call's own statement. -/
theorem StoreTask.Tracks.own (h : t.Tracks db) (hm : t.mail = none) (ha : Awaits t.call t.stage op) :
    { t with mail := some (db.execWith op f).2 : StoreTask}.Tracks (db.execWith op f).1 := by
  obtain ⟨call, stage, mail⟩ := t
  simp only at hm ha
  subst hm
  cases stage with
  | writing row n pc =>
      cases pc with
      | beginning b =>
          simp only [Awaits] at ha
          subst ha
          simp only [StoreTask.Tracks]
          split
          · rename_i hr
            exact Db.clean_of_begin (by simpa using hr)
          all_goals simp_all
      | numbering =>
          have hc : db.Clean := h
          rcases ha with rfl | ⟨a, rfl⟩
          · exact hc.execWith rfl f
          · exact hc.execWith rfl f
      | claiming =>
          obtain ⟨c, p, w, -, rfl⟩ := ha
          have hc : db.Clean := h
          exact hc.insertClaim c
      | inserting =>
          simp only [Awaits] at ha
          subst ha
          have hc : db.Clean := h
          by_cases hr : (db.execWith (.insertEvent row) f).2 = .done
          · simp only [StoreTask.Tracks, hr]
            rw [Db.insertEvent_done hr, Db.committed_execWith (by simp)]
            simp only [Tables.addEvent]
            rw [hc]
          · unfold StoreTask.Tracks
            split <;> simp_all
      | committing =>
          simp only [Awaits] at ha
          subst ha
          have hv : db.view.events = db.committed.events ++ [row] := h
          by_cases hr : (db.execWith .commit f).2 = .done
          · simp only [StoreTask.Tracks, hr]
            rw [Db.commit_done hr]
            exact ⟨_, hv⟩
          · unfold StoreTask.Tracks
            split <;> simp_all
      | recovering => exact trivial
      | cleaning cause => exact trivial
      | rechecking => exact trivial
  | _ => exact trivial

end Tracking

/-! ### What is owed to the callbacks -/

/-- The call is going to invoke the callback with the row. -/
def StoreTask.Owes (t : StoreTask) (k : ℕ) (row : EventRow) : Prop :=
  (∃ n, t.stage = .writing row n .committing ∧ t.mail = some .done) ∨
    ∃ k', t.stage = .publishing row k' ∧ k' < k

/-- The new rows of the log, each heard by a callback or owed to it. -/
structure News (base : List EventRow) (s : Store) (new : List EventRow) : Prop where
  committed : s.db.committed.events = base ++ new
  heard : ∀ k runId, s.heard k runId <+: new.filter (·.runId = runId)
  owed : ∀ k row, k < s.callbacks → row ∈ new → (k, row) ∉ s.published →
    ∃ (i : ℕ) (t : StoreTask), s.tasks[i]? = some t ∧ t.Owes k row
  owing : ∀ (i : ℕ) (t : StoreTask) k row, s.tasks[i]? = some t → t.Owes k row →
    row ∈ new ∧ (k, row) ∉ s.published
  distinct : ∀ (i j : ℕ) (t t' : StoreTask) k k' row, s.tasks[i]? = some t → s.tasks[j]? = some t' →
    t.Owes k row → t'.Owes k' row → i = j

/-- What holds in every run that keeps the news. -/
structure Announced (base : List EventRow) (s : Store) : Prop where
  numbered : Numbered s
  commits : ∀ e ∈ s.queue, e.op = .commit → e.owner ≠ none
  tracks : ∀ (i : ℕ) (t : StoreTask), s.tasks[i]? = some t → t.Tracks s.db
  news : ∃ new, News base s new

section News
variable {base new : List EventRow} {s u : Store} {i : ℕ} {t : StoreTask} {k : ℕ} {row : EventRow}

theorem not_owes_new {call : StoreCall} {stage : Stage} (h : ∀ row k, stage ≠ .publishing row k) :
    ¬ (⟨call, stage, none⟩ : StoreTask).Owes k row := by
  rintro (⟨n, _, hm⟩ | ⟨k', hst, _⟩)
  · cases hm
  · exact h row k' hst

theorem StoreTask.Owes.not_waits (h : t.Owes k row) (hm : t.mail = none) : t.stage.waits = false := by
  rcases h with ⟨n, _, hm'⟩ | ⟨k', hst, _⟩
  · rw [hm] at hm'
    cases hm'
  · rw [hst]
    rfl

theorem News.mem_new (h : News base s new) (hp : (k, row) ∈ s.published) : row ∈ new := by
  have hmem : row ∈ s.heard k row.runId := mem_heard.mpr ⟨hp, rfl⟩
  exact (List.mem_filter.mp ((h.heard k row.runId).subset hmem)).1

/-- The rows of a run among the new ones are in the order of their numbers. -/
theorem News.increasing (h : News base s new) (hk : s.db.committed.Kept) (runId : String) :
    (new.filter (·.runId = runId)).Pairwise (·.seq < ·.seq) := by
  have hp := hk.increasing runId
  unfold Tables.rowsOf at hp
  rw [h.committed, List.filter_append] at hp
  exact (List.pairwise_append.mp hp).2.1

/-- Nothing changes for the callbacks. -/
theorem News.of_same (h : News base s new) (hc : u.db.committed.events = s.db.committed.events)
    (hcb : u.callbacks = s.callbacks) (hp : u.published = s.published)
    (howes : ∀ k row, k < s.callbacks → (∃ (i : ℕ) (t : StoreTask), s.tasks[i]? = some t ∧ t.Owes k row) →
      ∃ (i : ℕ) (t : StoreTask), u.tasks[i]? = some t ∧ t.Owes k row)
    (howed : ∀ (i : ℕ) (t : StoreTask) k row, u.tasks[i]? = some t → t.Owes k row →
      ∃ t', s.tasks[i]? = some t' ∧ t'.Owes k row) : News base u new where
  committed := hc.trans h.committed
  heard k runId := by
    unfold Store.heard
    rw [hp]
    exact h.heard k runId
  owed k row hk hrow hnot := by
    rw [hcb] at hk
    rw [hp] at hnot
    exact howes k row hk (h.owed k row hk hrow hnot)
  owing i t k row ht ho := by
    obtain ⟨t', ht', ho'⟩ := howed i t k row ht ho
    rw [hp]
    exact h.owing i t' k row ht' ho'
  distinct i j t t' k k' row ht ht' ho ho' := by
    obtain ⟨t₁, ht₁, ho₁⟩ := howed i t k row ht ho
    obtain ⟨t₂, ht₂, ho₂⟩ := howed j t' k' row ht' ho'
    exact h.distinct i j t₁ t₂ k k' row ht₁ ht₂ ho₁ ho₂

/-! ### The worker's moves -/

variable {e : Ticket SqlOp} {rest : List (Ticket SqlOp)} {f : Fault}

@[simp] theorem serve_published : (s.serve e rest f).published = s.published := by
  unfold Store.serve Store.deliver
  split <;> rfl

@[simp] theorem serve_callbacks : (s.serve e rest f).callbacks = s.callbacks := by
  unfold Store.serve Store.deliver
  split <;> rfl

theorem Awaits.commit {call : StoreCall} {stage : Stage} (h : Awaits call stage .commit) :
    ∃ row n, stage = .writing row n .committing := by
  unfold Awaits at h
  split at h <;> simp_all [SqlOp.isWrite]

/-- COMMIT is executed for a call that waits for it. -/
theorem Announced.commit_owner (hs : Announced base s) (hq : s.queue = e :: rest)
    (hop : e.op = .commit) : ∃ (i : ℕ) (t : StoreTask) (row : EventRow) (n : ℕ), e.owner = some i ∧
      s.tasks[i]? = some t ∧ t.stage = .writing row n .committing ∧ t.mail = none := by
  have hne := hs.commits e (by rw [hq]; exact List.mem_cons_self) hop
  obtain ⟨i, hi⟩ := Option.ne_none_iff_exists'.mp hne
  have hown := owned_rest_owner hq hi
  cases ht : s.tasks[i]? with
  | none =>
      rw [hs.numbered.orderly.fresh i ht] at hown
      exact absurd hown (by simp)
  | some t =>
      have hexp := hs.numbered.orderly.expects i t ht
      rw [hown] at hexp
      obtain ⟨hm, -, ha⟩ := hexp.awaits
      rw [hop] at ha
      obtain ⟨row, n, hst⟩ := ha.commit
      exact ⟨i, t, row, n, hi, ht, hst, hm⟩

/-- An event has been committed. -/
theorem News.commit (h : News base s new) (hk : s.db.view.Kept)
    {i : ℕ} {t : StoreTask} {row : EventRow} {n : ℕ} (ho : e.owner = some i)
    (ht : s.tasks[i]? = some t) (hst : t.stage = .writing row n .committing) (hm : t.mail = none)
    (hv : s.db.view.events = s.db.committed.events ++ [row])
    (hc : (s.db.execWith e.op f).1.committed = s.db.view) (hr : (s.db.execWith e.op f).2 = .done) :
    News base (s.serve e rest f) (new ++ [row]) := by
  have hnot : row ∉ new := by
    intro hmem
    have hp := hk.increasing row.runId
    unfold Tables.rowsOf at hp
    rw [hv, h.committed, List.filter_append] at hp
    have hmem' : row ∈ (base ++ new).filter (·.runId = row.runId) := by simp [hmem]
    have hlt := (List.pairwise_append.mp hp).2.2 row hmem' row (by simp)
    exact absurd hlt (Nat.lt_irrefl _)
  have hself : (s.serve e rest f).tasks[i]? = some { t with mail := some .done } := by
    rw [serve_task_owner ho, ht, hr]
    rfl
  -- The call that has committed owes its row; the others owe what they did.
  have hcases : ∀ (j : ℕ) (t' : StoreTask) k row', (s.serve e rest f).tasks[j]? = some t' →
      t'.Owes k row' → (j = i ∧ row' = row) ∨ (s.tasks[j]? = some t' ∧ row' ∈ new) := by
    intro j t' k row' ht' howes
    rcases serve_task ht' with ⟨hj, t₀, h0, rfl⟩ | ⟨hj, h0⟩
    · rw [ho, Option.some.injEq] at hj
      rw [← hj, ht, Option.some.injEq] at h0
      refine .inl ⟨hj.symm, ?_⟩
      rcases howes with ⟨n', hst', -⟩ | ⟨k', hst', -⟩
      · simp only [← h0, hst] at hst'
        cases hst'
        rfl
      · simp only [← h0, hst] at hst'
        cases hst'
    · exact .inr ⟨h0, (h.owing j t' k row' h0 howes).1⟩
  refine ⟨?_, ?_, ?_, ?_, ?_⟩
  · rw [serve_db, hc, hv, h.committed, List.append_assoc]
  · intro k runId
    unfold Store.heard
    rw [serve_published, List.filter_append]
    exact (h.heard k runId).trans (List.prefix_append _ _)
  · intro k row' hk' hrow hnot'
    rw [serve_callbacks] at hk'
    rw [serve_published] at hnot'
    rcases List.mem_append.mp hrow with hold | hnew
    · obtain ⟨j, t', ht', howes⟩ := h.owed k row' hk' hold hnot'
      have hj : e.owner ≠ some j := by
        intro hj
        rw [ho, Option.some.injEq] at hj
        rw [← hj, ht, Option.some.injEq] at ht'
        have hw := howes.not_waits (by rw [← ht', hm])
        rw [← ht', hst] at hw
        cases hw
      refine ⟨j, t', ?_, howes⟩
      rw [serve_task_other hj, ht']
    · rw [List.mem_singleton] at hnew
      exact ⟨i, _, hself, .inl ⟨n, by rw [hnew]; exact hst, rfl⟩⟩
  · intro j t' k row' ht' howes
    rw [serve_published]
    rcases hcases j t' k row' ht' howes with ⟨-, rfl⟩ | ⟨h0, -⟩
    · exact ⟨by simp, fun hp => hnot (h.mem_new hp)⟩
    · obtain ⟨hmem, hp⟩ := h.owing j t' k row' h0 howes
      exact ⟨List.mem_append_left _ hmem, hp⟩
  · intro j j' t' t'' k k' row' ht' ht'' howes howes'
    rcases hcases j t' k row' ht' howes with ⟨hj, hr₁⟩ | ⟨h0, hmem⟩
    · rcases hcases j' t'' k' row' ht'' howes' with ⟨hj', -⟩ | ⟨-, hmem'⟩
      · rw [hj, hj']
      · exact absurd (hr₁ ▸ hmem') hnot
    · rcases hcases j' t'' k' row' ht'' howes' with ⟨-, hr₂⟩ | ⟨h0', -⟩
      · exact absurd (hr₂ ▸ hmem) hnot
      · exact h.distinct j j' t' t'' k k' row' h0 h0' howes howes'

/-- A statement that commits nothing. -/
theorem News.serve (h : News base s new) (hs : Announced base s) (hq : s.queue = e :: rest)
    (hc : (s.db.execWith e.op f).1.committed = s.db.committed)
    (hr : e.op = .commit → (s.db.execWith e.op f).2 ≠ .done) : News base (s.serve e rest f) new := by
  -- The call that gets the answer owes as much as before: nothing.
  have hidle : ∀ (i : ℕ) (t : StoreTask), e.owner = some i → s.tasks[i]? = some t →
      t.mail = none ∧ t.stage.waits = true ∧ ∀ row n, t.stage = .writing row n .committing → e.op = .commit := by
    intro i t ho ht
    have hexp := hs.numbered.orderly.expects i t ht
    rw [owned_rest_owner hq ho] at hexp
    obtain ⟨hm, -, ha⟩ := hexp.awaits
    refine ⟨hm, ?_, ?_⟩
    · by_contra hw
      have hnil := StoreTask.Expects.nil_of_waits hexp (by simpa using hw)
      exact absurd hnil (by simp)
    · intro row n hst
      rw [hst] at ha
      exact ha
  refine h.of_same (by rw [serve_db, hc]) serve_callbacks serve_published ?_ ?_
  · rintro k row - ⟨i, t, ht, ho⟩
    have hi : e.owner ≠ some i := by
      intro hi
      obtain ⟨hm, hw, -⟩ := hidle i t hi ht
      rw [ho.not_waits hm] at hw
      cases hw
    exact ⟨i, t, by rw [serve_task_other hi, ht], ho⟩
  · intro i t k row ht ho
    rcases serve_task ht with ⟨hi, t₀, h0, rfl⟩ | ⟨hi, h0⟩
    · obtain ⟨-, hw, hcommit⟩ := hidle i t₀ hi h0
      rcases ho with ⟨n, hst, hm⟩ | ⟨k', hst, -⟩
      · exact absurd (Option.some.inj hm) (hr (hcommit row n hst))
      · simp only at hst
        rw [hst] at hw
        cases hw
    · exact ⟨t, h0, ho⟩

theorem Announced.tracks_serve (hs : Announced base s) (hok : keepsNews s (.execute f) = true)
    (hq : s.queue = e :: rest) {i : ℕ} {t : StoreTask} (ht : (s.serve e rest f).tasks[i]? = some t) :
    t.Tracks (s.serve e rest f).db := by
  rw [serve_db]
  rcases serve_task ht with ⟨ho, t₀, h0, rfl⟩ | ⟨ho, h0⟩
  · have hexp := hs.numbered.orderly.expects i t₀ h0
    rw [owned_rest_owner hq ho] at hexp
    obtain ⟨hm, -, ha⟩ := hexp.awaits
    exact (hs.tracks i t₀ h0).own hm ha
  · by_cases hin : t.inTxn = true
    · have hop := hs.numbered.isWrite_head hq h0 hin ho
      apply (hs.tracks i t h0).read hop
      by_contra hcon
      obtain ⟨hf, hins⟩ := not_or.mp hcon
      simp only [ne_eq, not_not] at hf
      have hany : s.tasks.any (·.hasInserted) = true :=
        List.any_eq_true.mpr ⟨t, List.mem_of_getElem? h0, by simpa using hins⟩
      simp [keepsNews, hf, hq, hop, hany] at hok
    · -- A call outside its transaction follows nothing.
      unfold StoreTask.Tracks
      unfold StoreTask.inTxn at hin
      split <;> simp_all

theorem Announced.serve (hs : Announced base s) (hok : keepsNews s (.execute f) = true)
    (hq : s.queue = e :: rest) : Announced base (s.serve e rest f) where
  numbered := hs.numbered.serve hq f
  commits e' he' := by
    rw [serve_queue] at he'
    exact hs.commits e' (by rw [hq]; exact List.mem_cons_of_mem _ he')
  tracks i t ht := hs.tracks_serve hok hq ht
  news := by
    obtain ⟨new, hnew⟩ := hs.news
    by_cases hop : e.op = .commit
    · obtain ⟨i, t, row, n, ho, ht, hst, hm⟩ := hs.commit_owner hq hop
      have hv := hs.tracks i t ht
      simp only [StoreTask.Tracks, hst, hm] at hv
      cases f with
      | none =>
          refine ⟨_, hnew.commit hs.numbered.sound.keptView ho ht hst hm hv ?_ ?_⟩
          · rw [hop]
            rfl
          · rw [hop]
            rfl
      | abort =>
          refine ⟨new, hnew.serve hs hq rfl fun _ => ?_⟩
          simp [Db.execWith]
      | rollback =>
          refine ⟨new, hnew.serve hs hq rfl fun _ => ?_⟩
          simp [Db.execWith]
    · exact ⟨new, hnew.serve hs hq (Db.committed_execWith hop) fun h => absurd h hop⟩

/-! ### The moves of the calls -/

variable {call : StoreCall} {stage : Stage} {op : Option SqlOp}

theorem Follows.tracks {st : Stage} {r : SqlResult} (hf : Follows s call st r stage op)
    (h : (⟨call, st, some r⟩ : StoreTask).Tracks s.db) :
    (⟨call, stage, none⟩ : StoreTask).Tracks s.db := by
  cases hf with
  | @fetch st a hr =>
      unfold Stage.reads at hr
      split at hr
      · exact trivial
      · exact trivial
      · exact h
      · exact trivial
      · cases hr
  | claiming _ | numbering _ | numbered | claimed | inserted => exact h
  | finish hst =>
      rw [hst]
      cases call <;> exact trivial
  | _ => exact trivial

theorem Origin.tracks (ho : Origin s i call stage op) (hs : Announced base s) :
    (⟨call, stage, none⟩ : StoreTask).Tracks s.db := by
  cases ho with
  | @resumes t r _ _ ht hc hm hf =>
      have h := hs.tracks i t ht
      obtain ⟨call', st, mail⟩ := t
      simp only at hc hm hf
      subst hc hm
      exact hf.tracks h
  | finishes _ _ _ hst =>
      rw [hst]
      cases call <;> exact trivial
  | _ => exact trivial

/-- A call goes on, and its COMMIT is not left behind. -/
theorem Announced.go (hs : Announced base s) (hg : Goes s u i call stage op)
    (ho : Origin s i call stage op) (hno : .commit ∉ owned i s.queue)
    (hnews : ∀ new, News base s new → News base u new) : Announced base u where
  numbered := hg.numbered ho hs.numbered
  commits e he hop := by
    obtain ⟨q, hq, -, hu⟩ := hg.queue
    rw [hu] at he
    rcases List.mem_append.mp he with he | he
    · rcases hq with rfl | rfl
      · exact hs.commits e he hop
      · obtain ⟨e', he', rfl⟩ := List.mem_map.mp he
        rw [Ticket.op_disown] at hop
        have hne : e'.owner ≠ some i := by
          intro hi
          apply hno
          rw [mem_owned, ← hi, ← hop]
          exact he'
        unfold Ticket.disown
        rw [if_neg hne]
        exact hs.commits e' he' hop
    · obtain ⟨o, -, rfl⟩ := List.mem_map.mp he
      simp
  tracks j t ht := by
    rw [hg.db]
    by_cases hj : j = i
    · rw [hj, hg.self, Option.some.injEq] at ht
      rw [← ht]
      exact ho.tracks hs
    · rw [hg.other j hj] at ht
      exact hs.tracks j t ht
  news := by
    obtain ⟨new, hnew⟩ := hs.news
    exact ⟨new, hnews new hnew⟩

/-- A call that owes nothing goes on without invoking a callback. -/
theorem News.pass (h : News base s new) (hg : Goes s u i call stage op) (hcb : u.callbacks = s.callbacks)
    (hp : u.published = s.published) (hst : ∀ row k, stage ≠ .publishing row k)
    (hfree : ∀ t k row, s.tasks[i]? = some t → t.Owes k row → s.callbacks ≤ k) : News base u new := by
  refine h.of_same (by rw [hg.db]) hcb hp ?_ ?_
  · rintro k row hk ⟨j, t, ht, ho⟩
    have hj : j ≠ i := by
      rintro rfl
      exact absurd (hfree t k row ht ho) (by omega)
    exact ⟨j, t, by rw [hg.other j hj, ht], ho⟩
  · intro j t k row ht ho
    by_cases hj : j = i
    · rw [hj, hg.self, Option.some.injEq] at ht
      rw [← ht] at ho
      exact absurd ho (not_owes_new hst)
    · rw [hg.other j hj] at ht
      exact ⟨t, ht, ho⟩

theorem heard_publish (hp : u.published = s.published ++ [(k, row)]) (k' : ℕ) (runId : String) :
    u.heard k' runId = s.heard k' runId ++ if k = k' ∧ row.runId = runId then [row] else [] := by
  unfold Store.heard
  rw [hp, List.filter_append, List.map_append]
  congr 1
  split_ifs with h
  · simp [h]
  · simp [h]

/-- A callback is invoked with the next row that is owed to it. -/
theorem News.publish (h : News base s new) (hk : s.db.committed.Kept)
    (hg : Goes s u i call (.publishing row k) op) (hcb : u.callbacks = s.callbacks)
    (hp : u.published = s.published ++ [(k, row)]) (ht : s.tasks[i]? = some t) (ho : t.Owes k row)
    (honly : ∀ k' row', t.Owes k' row' → row' = row ∧ k ≤ k')
    (hnext : ∀ x ∈ new, x.runId = row.runId → x.seq < row.seq → (k, x) ∈ s.published) :
    News base u new where
  committed := by
    rw [hg.db]
    exact h.committed
  heard k' runId := by
    rw [heard_publish hp]
    split_ifs with hk'
    · obtain ⟨rfl, rfl⟩ := hk'
      obtain ⟨hmem, hnot⟩ := h.owing i t k row ht ho
      apply prefix_snoc (h.heard k row.runId) (h.increasing hk row.runId)
      · simp [hmem]
      · rw [mem_heard]
        exact fun hh => hnot hh.1
      · intro x hx hlt
        obtain ⟨hx, hrun⟩ := List.mem_filter.mp hx
        have hrun : x.runId = row.runId := by simpa using hrun
        exact mem_heard.mpr ⟨hnext x hx hrun hlt, hrun⟩
    · rw [List.append_nil]
      exact h.heard k' runId
  owed k' row' hk' hrow hnot := by
    rw [hcb] at hk'
    rw [hp] at hnot
    obtain ⟨j, t', ht', ho'⟩ := h.owed k' row' hk' hrow fun hin => hnot (List.mem_append_left _ hin)
    by_cases hj : j = i
    · rw [hj, ht, Option.some.injEq] at ht'
      obtain ⟨rfl, hle⟩ := honly k' row' (ht' ▸ ho')
      have hne : k ≠ k' := by
        rintro rfl
        exact hnot (by simp)
      exact ⟨i, _, hg.self, .inr ⟨k, rfl, by omega⟩⟩
    · exact ⟨j, t', by rw [hg.other j hj, ht'], ho'⟩
  owing j t' k' row' ht' ho' := by
    rw [hp]
    by_cases hj : j = i
    · rw [hj, hg.self, Option.some.injEq] at ht'
      rw [← ht'] at ho'
      rcases ho' with ⟨n, hst, -⟩ | ⟨k₀, hst, hlt⟩
      · cases hst
      · obtain ⟨rfl, rfl⟩ := Stage.publishing.inj hst
        have hbefore : (k', row) ∉ s.published := by
          -- The callbacks after this one were owed before, too.
          have howes : t.Owes k' row := by
            rcases ho with ho | ⟨k₁, hst₁, hlt₁⟩
            · exact .inl ho
            · exact .inr ⟨k₁, hst₁, by omega⟩
          exact (h.owing i t k' row ht howes).2
        refine ⟨(h.owing i t k row ht ho).1, ?_⟩
        simp only [List.mem_append, List.mem_singleton, Prod.mk.injEq, not_or, not_and]
        exact ⟨hbefore, fun heq => absurd heq (by omega)⟩
    · rw [hg.other j hj] at ht'
      obtain ⟨hmem, hnot⟩ := h.owing j t' k' row' ht' ho'
      refine ⟨hmem, ?_⟩
      simp only [List.mem_append, List.mem_singleton, Prod.mk.injEq, not_or, not_and]
      refine ⟨hnot, ?_⟩
      rintro rfl rfl
      exact hj (h.distinct j i t' t k' k' row' ht' ht ho' ho)
  distinct j j' t₁ t₂ k₁ k₂ row' ht₁ ht₂ ho₁ ho₂ := by
    -- The call owed the row that it has announced now.
    have hbefore : ∀ (j : ℕ) (t₁ : StoreTask) k₁, u.tasks[j]? = some t₁ → t₁.Owes k₁ row' →
        ∃ t₀ k₀, s.tasks[j]? = some t₀ ∧ t₀.Owes k₀ row' := by
      intro j t₁ k₁ ht₁ ho₁
      by_cases hj : j = i
      · rw [hj, hg.self, Option.some.injEq] at ht₁
        rw [← ht₁] at ho₁
        rcases ho₁ with ⟨n, hst, -⟩ | ⟨k₀, hst, -⟩
        · cases hst
        · obtain ⟨rfl, rfl⟩ := Stage.publishing.inj hst
          exact ⟨t, k, hj ▸ ht, ho⟩
      · rw [hg.other j hj] at ht₁
        exact ⟨t₁, k₁, ht₁, ho₁⟩
    obtain ⟨t₁', k₁', h₁, ho₁'⟩ := hbefore j t₁ k₁ ht₁ ho₁
    obtain ⟨t₂', k₂', h₂, ho₂'⟩ := hbefore j' t₂ k₂ ht₂ ho₂
    exact h.distinct j j' t₁' t₂' k₁' k₂' row' h₁ h₂ ho₁' ho₂'

/-! ### Which moves invoke a callback -/

theorem publish_of_lt (i : ℕ) (t : StoreTask) (row : EventRow) (h : k < s.callbacks) :
    (s.publish i t row k).published = s.published ++ [(k, row)] ∧
    (s.publish i t row k).callbacks = s.callbacks ∧
    (s.publish i t row k).tasks = s.tasks.set i { call := t.call, stage := .publishing row k } := by
  unfold Store.publish
  rw [if_pos h]
  exact ⟨rfl, rfl, rfl⟩

theorem publish_of_le (i : ℕ) (t : StoreTask) (row : EventRow) (h : s.callbacks ≤ k) :
    (s.publish i t row k).published = s.published ∧
    (s.publish i t row k).callbacks = s.callbacks ∧
    (s.publish i t row k).tasks = s.tasks.set i { call := t.call, stage := Store.finalStage t.call row } := by
  unfold Store.publish
  rw [if_neg (by omega)]
  exact ⟨rfl, rfl, rfl⟩

theorem finalStage_ne_publishing (call : StoreCall) (row row' : EventRow) (k : ℕ) :
    Store.finalStage call row ≠ .publishing row' k := by
  cases call <;> simp [Store.finalStage]

/-- After its commit a call goes on with the first callback. -/
theorem committedTxn_eq (s : Store) (i : ℕ) (t : StoreTask) (row : EventRow) :
    ∃ s' : Store, s'.published = s.published ∧ s'.callbacks = s.callbacks ∧ s'.tasks = s.tasks ∧
      s.committedTxn i t row = s'.publish i t row 0 := by
  unfold Store.committedTxn
  split
  · rename_i c p w _
    exact ⟨s.cacheClaim c w, rfl, rfl, rfl, rfl⟩
  · exact ⟨s, rfl, rfl, rfl, rfl⟩

/-- A resuming call invokes no callback, unless it has committed. -/
theorem advance_published {r : SqlResult} (h : s.advance i t r = some u) :
    (∃ row n, t.stage = .writing row n .committing ∧ r = .done ∧ u = s.committedTxn i t row) ∨
      (u.published = s.published ∧ u.callbacks = s.callbacks ∧
        ∀ row n, t.stage = .writing row n .committing → r ≠ .done) := by
  unfold Store.advance at h
  split at h
  · rename_i hst
    refine .inr ?_
    rw [← Option.some.inj h, hst]
    unfold Store.checked
    repeat' split
    all_goals exact ⟨rfl, rfl, by simp⟩
  · rename_i row n pc hst
    rw [← Option.some.inj h, hst]
    unfold Store.written
    split
    · refine .inr ?_
      unfold Store.enterBody
      split <;> exact ⟨rfl, rfl, by simp⟩
    · exact .inr ⟨rfl, rfl, by simp⟩
    · exact .inr ⟨rfl, rfl, by simp⟩
    · exact .inr ⟨rfl, rfl, by simp⟩
    · exact .inr ⟨rfl, rfl, by simp⟩
    · exact .inr ⟨rfl, rfl, by simp⟩
    · exact .inr ⟨rfl, rfl, by simp⟩
    · exact .inr ⟨rfl, rfl, by simp⟩
    · exact .inr ⟨rfl, rfl, by simp⟩
    · exact .inr ⟨rfl, rfl, by simp⟩
    · exact .inl ⟨_, _, rfl, rfl, rfl⟩
    · refine .inr ?_
      unfold Store.cleanedUp
      repeat' split
      all_goals exact ⟨rfl, rfl, by simp⟩
    · exact .inr ⟨rfl, rfl, by simp⟩
    · exact .inr ⟨rfl, rfl, by simp⟩
    · exact .inr ⟨rfl, rfl, by simp⟩
    · refine .inr ⟨rfl, rfl, ?_⟩
      rintro row' n' hst' rfl
      cases hst'
      simp_all
  · rename_i hst
    refine .inr ?_
    rw [← Option.some.inj h, hst]
    unfold Store.reread
    split <;> exact ⟨rfl, rfl, by simp⟩
  · cases h

/-- Only a call that has committed goes on to the callbacks. -/
theorem Follows.publishing {st : Stage} {r : SqlResult}
    (hf : Follows s call st r (.publishing row k) op) :
    ∃ n, st = .writing row n .committing ∧ r = .done := by
  generalize hst : (Stage.publishing row k) = stage at hf
  cases hf with
  | fetch hr =>
      rw [← hst] at hr
      cases hr
  | publish =>
      cases hst
      exact ⟨_, rfl, rfl⟩
  | finish hfin => exact absurd (hst.trans hfin).symm (finalStage_ne_publishing _ _ _ _)
  | _ => cases hst

/-- The stage of a call is where the move has put it. -/
theorem Goes.stage_eq (hg : Goes s u i call stage op) (ht : s.tasks[i]? = some t) {task : StoreTask}
    (hu : u.tasks = s.tasks.set i task) : task = { call := call, stage := stage } := by
  have hlt : i < s.tasks.length := (List.getElem?_eq_some_iff.mp ht).1
  have hself := hg.self
  rw [hu, List.getElem?_set_self hlt, Option.some.injEq] at hself
  exact hself

/-- The row that a call has just committed is the last one. -/
theorem Announced.le_of_committing (hs : Announced base s) {n : ℕ} (ht : s.tasks[i]? = some t)
    (hst : t.stage = .writing row n .committing) (hm : t.mail = some .done) {x : EventRow}
    (hx : x ∈ s.db.committed.events) (hrun : x.runId = row.runId) : x.seq ≤ row.seq := by
  have htr := hs.tracks i t ht
  simp only [StoreTask.Tracks, hst, hm] at htr
  obtain ⟨rows, hrows⟩ := htr
  have hp := hs.numbered.sound.kept.increasing row.runId
  unfold Tables.rowsOf at hp
  rw [hrows, List.filter_append] at hp
  rw [hrows] at hx
  rcases List.mem_append.mp hx with hx | hx
  · have hmem : x ∈ rows.filter (·.runId = row.runId) := by simp [hx, hrun]
    exact Nat.le_of_lt ((List.pairwise_append.mp hp).2.2 x hmem row (by simp))
  · rw [List.mem_singleton.mp hx]

theorem Announced.resume (hs : Announced base s) (h : storeStep s (.resume i) = some u) :
    Announced base u := by
  simp only [storeStep, Option.bind_eq_some_iff] at h
  obtain ⟨t, ht, r, hr, h⟩ := h
  obtain ⟨stage, op, hw, hf⟩ := advance_went h
  have hord := hs.numbered.orderly
  have hown : owned i s.queue = [] := (hord.expects i t ht).nil (by simp [hr])
  have hg : Goes s u i t.call stage op := Went.goes hw hord ht (.inl rfl) hown hf.inside hf.awaits
  refine hs.go hg (.resumes ht rfl hr hf) (by simp [hown]) fun new hnew => ?_
  rcases advance_published h with ⟨row, n, hst, rfl, rfl⟩ | ⟨hp, hcb, hnot⟩
  · obtain ⟨s', hp', hcb', htasks', heq⟩ := committedTxn_eq s i t row
    rcases Nat.eq_zero_or_pos s.callbacks with hz | hpos
    · obtain ⟨hp, hcb, htasks⟩ := publish_of_le (s := s') (k := 0) i t row (by omega)
      rw [← heq, htasks'] at htasks
      rw [← heq, hp'] at hp
      rw [← heq, hcb'] at hcb
      have hstage := hg.stage_eq ht htasks
      simp only [StoreTask.mk.injEq, true_and, and_true] at hstage
      refine hnew.pass hg hcb hp (fun row' k' => ?_) (fun _ _ _ _ _ => by omega)
      rw [← hstage]
      exact finalStage_ne_publishing _ _ _ _
    · obtain ⟨hp, hcb, htasks⟩ := publish_of_lt (s := s') (k := 0) i t row (by omega)
      rw [← heq, htasks'] at htasks
      rw [← heq, hp'] at hp
      rw [← heq, hcb'] at hcb
      have hstage := hg.stage_eq ht htasks
      simp only [StoreTask.mk.injEq, true_and, and_true] at hstage
      rw [← hstage] at hg
      refine hnew.publish hs.numbered.sound.kept hg hcb hp ht (.inl ⟨n, hst, hr⟩) ?_ ?_
      · rintro k' row' (⟨n', hst', -⟩ | ⟨k₀, hst', -⟩)
        · rw [hst] at hst'
          cases hst'
          exact ⟨rfl, Nat.zero_le _⟩
        · rw [hst] at hst'
          cases hst'
      · -- An earlier row that is not announced would be owed by another holder of the lock.
        intro x hx hrun hlt
        by_contra hnot
        obtain ⟨j, t', ht', ⟨n', hst', hm'⟩ | ⟨k₀, -, hk₀⟩⟩ := hnew.owed 0 x hpos hx hnot
        · have hmem : row ∈ s.db.committed.events := by
            rw [hnew.committed]
            exact List.mem_append_right _ (hnew.owing i t 0 row ht (.inl ⟨n, hst, hr⟩)).1
          have hle := hs.le_of_committing ht' hst' hm' hmem hrun.symm
          omega
        · omega
  · refine hnew.pass hg hcb hp (fun row k hst => ?_) (fun t' k row ht' ho => ?_)
    · rw [hst] at hf
      obtain ⟨n, hst', hd⟩ := hf.publishing
      exact hnot row n hst' hd
    · rw [ht, Option.some.injEq] at ht'
      rw [← ht'] at ho
      rcases ho with ⟨n, hst, hm⟩ | ⟨k', hst, -⟩
      · rw [hr, Option.some.injEq] at hm
        exact absurd hm (hnot row n hst)
      · simp [Store.advance, hst] at h

theorem Announced.called (hs : Announced base s) (hok : keepsNews s (.called i) = true)
    (h : storeStep s (.called i) = some u) : Announced base u := by
  obtain ⟨call, stage, op, hg, ho⟩ := called_goes hs.numbered.orderly h
  simp only [storeStep, Option.bind_eq_some_iff] at h
  obtain ⟨t, ht, h⟩ := h
  split at h
  · rename_i row k hst
    have hown : owned i s.queue = [] :=
      (hs.numbered.orderly.expects i t ht).nil_of_waits (by rw [hst]; rfl)
    have hu := Option.some.inj h
    have honly : ∀ k' row', t.Owes k' row' → row' = row ∧ k + 1 ≤ k' := by
      rintro k' row' (⟨n, hst', -⟩ | ⟨k₀, hst', hlt⟩)
      · rw [hst] at hst'
        cases hst'
      · rw [hst] at hst'
        cases hst'
        exact ⟨rfl, hlt⟩
    refine hs.go hg ho (by simp [hown]) fun new hnew => ?_
    rcases Nat.lt_or_ge (k + 1) s.callbacks with hlt | hge
    · obtain ⟨hp, hcb, htasks⟩ := publish_of_lt i t row hlt
      rw [hu] at hp hcb htasks
      have hstage := hg.stage_eq ht htasks
      simp only [StoreTask.mk.injEq, and_true] at hstage
      rw [← hstage.2] at hg
      refine hnew.publish hs.numbered.sound.kept hg hcb hp ht (.inr ⟨k, hst, by omega⟩) honly ?_
      intro x hx hrun hlt'
      by_contra hnot
      obtain ⟨j, t', ht', ⟨n', hst', hm'⟩ | ⟨k₀, hst', hk₀⟩⟩ := hnew.owed (k + 1) x hlt hx hnot
      · have hmem : row ∈ s.db.committed.events := by
          rw [hnew.committed]
          exact List.mem_append_right _ (hnew.owing i t (k + 1) row ht (.inr ⟨k, hst, by omega⟩)).1
        have hle := hs.le_of_committing ht' hst' hm' hmem hrun.symm
        omega
      · -- The condition: no earlier row is still waiting for this callback.
        obtain ⟨c, st, m⟩ := t
        simp only at hst
        subst hst
        simp only [keepsNews, ht, Bool.or_eq_true, decide_eq_true_eq, List.all_eq_true] at hok
        rcases hok with hle | hall
        · omega
        · have hthis := hall t' (List.mem_of_getElem? ht')
          simp only [hst', ne_eq, Bool.or_eq_true, decide_eq_true_eq] at hthis
          rcases hthis with (hne | hle) | hlt''
          · exact hne hrun
          · omega
          · omega
    · obtain ⟨hp, hcb, htasks⟩ := publish_of_le i t row hge
      rw [hu] at hp hcb htasks
      have hstage := hg.stage_eq ht htasks
      simp only [StoreTask.mk.injEq, and_true] at hstage
      refine hnew.pass hg hcb hp (fun row' k' => ?_) (fun t' k' row' ht' ho' => ?_)
      · rw [← hstage.2]
        exact finalStage_ne_publishing _ _ _ _
      · rw [ht, Option.some.injEq] at ht'
        have := (honly k' row' (ht' ▸ ho')).2
        omega
  · cases h

theorem cancelTask_published (h : s.cancelTask i t = some u) : u.published = s.published ∧
    u.callbacks = s.callbacks ∧ ∃ stage, u.tasks = s.tasks.set i { call := t.call, stage := stage } ∧
      ∀ row k, stage ≠ .publishing row k := by
  unfold Store.cancelTask at h
  split at h
  all_goals first
    | cases h
      exact ⟨rfl, rfl, _, rfl, by simp⟩
    | cases h

theorem Announced.cancel (hs : Announced base s) (hok : keepsNews s (.cancel i) = true)
    (h : storeStep s (.cancel i) = some u) : Announced base u := by
  obtain ⟨call, stage, op, hg, ho⟩ := cancel_goes hs.numbered.orderly h
  simp only [storeStep, Option.bind_eq_some_iff] at h
  obtain ⟨t, ht, h⟩ := h
  obtain ⟨hp, hcb, stage', htasks, hne⟩ := cancelTask_published h
  have hstage := hg.stage_eq ht htasks
  simp only [StoreTask.mk.injEq, and_true] at hstage
  have hcommit : ∀ row n, t.stage = .writing row n .committing → t.mail.any (· ≠ .done) = true := by
    intro row n hst
    obtain ⟨c, st, m⟩ := t
    simp only at hst
    subst hst
    simpa only [keepsNews, ht] using hok
  refine hs.go hg ho ?_ fun new hnew => hnew.pass hg hcb hp ?_ ?_
  · intro hmem
    rcases hs.numbered.orderly.expects i t ht with ⟨hnil, -⟩ | ⟨hm, op', hop', ha⟩
    · rw [hnil] at hmem
      exact absurd hmem List.not_mem_nil
    · rw [hop', List.mem_singleton] at hmem
      rw [← hmem] at ha
      obtain ⟨row, n, hst⟩ := ha.commit
      have hany := hcommit row n hst
      rw [hm] at hany
      cases hany
  · rw [← hstage.2]
    exact hne
  · intro t' k row ht' ho'
    rw [ht, Option.some.injEq] at ht'
    rw [← ht'] at ho'
    rcases ho' with ⟨n, hst, hm⟩ | ⟨k', hst, hlt⟩
    · have hany := hcommit row n hst
      rw [hm] at hany
      simp at hany
    · obtain ⟨c, st, m⟩ := t
      simp only at hst
      subst hst
      simp only [keepsNews, ht, decide_eq_true_eq] at hok
      omega

theorem Announced.acquire (hs : Announced base s) (h : storeStep s (.acquire i) = some u) :
    Announced base u := by
  obtain ⟨call, stage, op, hg, ho⟩ := acquire_goes hs.numbered.orderly h
  simp only [storeStep, Option.bind_eq_some_iff] at h
  obtain ⟨t, ht, h⟩ := h
  split at h
  · rename_i row hst _
    have hown : owned i s.queue = [] :=
      (hs.numbered.orderly.expects i t ht).nil_of_waits (by rw [hst]; rfl)
    have hu := Option.some.inj h
    subst hu
    have hstage := hg.stage_eq ht rfl
    simp only [StoreTask.mk.injEq, and_true] at hstage
    refine hs.go hg ho (by simp [hown]) fun new hnew => hnew.pass hg rfl rfl ?_ ?_
    · rw [← hstage.2]
      simp
    · intro t' k row' ht' ho'
      rw [ht, Option.some.injEq] at ht'
      rw [← ht'] at ho'
      rcases ho' with ⟨n, hst', -⟩ | ⟨k', hst', -⟩
      · rw [hst] at hst'
        cases hst'
      · rw [hst] at hst'
        cases hst'
  · cases h

/-- A new call. -/
theorem Announced.begin (hs : Announced base s) (c : StoreCall) : Announced base (s.begin c) := by
  obtain ⟨stage, op, hg, ho⟩ := begin_goes hs.numbered.orderly c
  have hsame : (s.begin c).published = s.published ∧ (s.begin c).callbacks = s.callbacks := by
    unfold Store.begin
    repeat' split
    all_goals exact ⟨rfl, rfl⟩
  have hnone : s.tasks[s.tasks.length]? = none := List.getElem?_eq_none (Nat.le_refl _)
  have hstage : ∀ row k, stage ≠ .publishing row k := by
    cases ho with
    | looksUp _ _ _ | keyless _ _ | claims _ _ | reads _ _ => simp
    | resumes ht _ _ _ | acquires ht _ _ | publishes ht _ _ | finishes ht _ _ _ | raises ht _
    | cleansUp ht _ _ =>
        rw [hnone] at ht
        cases ht
  refine hs.go hg ho ?_ fun new hnew => hnew.pass hg hsame.2 hsame.1 hstage ?_
  · simp [hs.numbered.orderly.fresh s.tasks.length hnone]
  · intro t k row ht
    rw [hnone] at ht
    cases ht

theorem Announced.step {m : StoreMove} (hs : Announced base s) (hok : keepsNews s m = true)
    (h : storeStep s m = some u) : Announced base u := by
  cases m with
  | call c =>
      rw [← Option.some.inj h]
      exact hs.begin c
  | execute f =>
      simp only [storeStep] at h
      split at h
      · cases h
      · rename_i e rest hq
        rw [← Option.some.inj h]
        exact hs.serve hok hq
  | resume i => exact hs.resume h
  | acquire i => exact hs.acquire h
  | called i => exact hs.called hok h
  | cancel i => exact hs.cancel hok h

end News

/-! ### Every run -/

theorem Store.Opened.announced {s : Store} (h : s.Opened) (hp : s.published = []) :
    Announced s.db.committed.events s := by
  refine ⟨h.numbered, ?_, ?_, [], ?_, ?_, ?_, ?_, ?_⟩
  · intro e he
    simp [h.queue] at he
  · intro i t ht
    simp [h.tasks] at ht
  · simp
  · intro k runId
    simp [Store.heard, hp]
  · intro k row _ hrow
    exact absurd hrow List.not_mem_nil
  · intro i t k row ht
    simp [h.tasks] at ht
  · intro i j t t' k k' row ht
    simp [h.tasks] at ht

/-- **Subscribers see the log**, in every run that keeps the news: at any time a callback has heard the
first of the new events of a run, once each and in the order of their numbers, and when no call is
announcing an event of the run it has heard all of them. -/
theorem subscribers_see_the_log {s₀ s : Store} (h0 : s₀.Opened) (hp : s₀.published = [])
    (h : ReachesVia storeStep (fun s m => keepsNews s m = true) s₀ s) :
    ∃ new, s.db.committed.events = s₀.db.committed.events ++ new ∧
      ∀ k < s.callbacks, ∀ runId,
        s.heard k runId <+: new.filter (·.runId = runId) ∧
        (s.heard k runId).Pairwise (·.seq < ·.seq) ∧
        ((∀ t ∈ s.tasks, t.announcing runId = false) →
          s.heard k runId = new.filter (·.runId = runId)) := by
  have hs : Announced s₀.db.committed.events s := by
    refine h.invariant (h0.announced hp) ?_
    intro t u m _ hok ht hstep
    exact ht.step hok hstep
  obtain ⟨new, hnew⟩ := hs.news
  refine ⟨new, hnew.committed, fun k hk runId => ?_⟩
  have hincr := hnew.increasing hs.numbered.sound.kept runId
  have hpre := hnew.heard k runId
  refine ⟨hpre, hincr.sublist hpre.sublist, fun hdone => ?_⟩
  -- What has not been heard would be owed by a call that is announcing.
  obtain ⟨rest, hrest⟩ := hpre
  cases rest with
  | nil => rw [← hrest, List.append_nil]
  | cons x rest =>
      exfalso
      rw [← hrest] at hincr
      have hx : x ∈ new ∧ x.runId = runId := by
        have hmem : x ∈ new.filter (·.runId = runId) := by
          rw [← hrest]
          simp
        simpa using hmem
      have hnot : (k, x) ∉ s.published := by
        intro hpub
        have hmem : x ∈ s.heard k runId := mem_heard.mpr ⟨hpub, hx.2⟩
        exact absurd ((List.pairwise_append.mp hincr).2.2 x hmem x List.mem_cons_self)
          (Nat.lt_irrefl _)
      obtain ⟨i, t, ht, howes⟩ := hnew.owed k x hk hx.1 hnot
      have hfalse := hdone t (List.mem_of_getElem? ht)
      unfold StoreTask.announcing at hfalse
      rcases howes with ⟨n, hst, hm⟩ | ⟨k', hst, -⟩
      · simp [hst, hm, hx.2] at hfalse
      · simp [hst, hx.2] at hfalse

/-- Two appends; the second commits while the first is in its first callback. -/
def twoAppends : List StoreMove :=
  [StoreMove.call (.append plainDraft), .call (.append plainDraft), .acquire 0, .execute .none] ++
    appendMoves 0 ++ [StoreMove.acquire 1, .execute .none] ++ appendMoves 1 ++
    [StoreMove.called 0, .called 1, .called 0, .called 1]

/-- Both callbacks have heard both events. -/
theorem both_appends_are_heard : ∃ s,
    ReachesVia storeStep (fun s m => keepsNews s m = true) { callbacks := 2 } s ∧
    s.db.committed.events.map (·.seq) = [1, 2] ∧ s.callbacks = 2 ∧
    s.heard 1 "r" = s.db.committed.events.filter (·.runId = "r") := by
  obtain ⟨s, hs, hp⟩ := exists_reachesVia_of_run storeStep keepsNews twoAppends { callbacks := 2 }
    (fun s => s.db.committed.events.map (·.seq) = [1, 2] && s.callbacks = 2 &&
      s.tasks.all fun t => !t.announcing "r") (by rfl)
  simp only [Bool.and_eq_true, decide_eq_true_eq, List.all_eq_true, Bool.not_eq_true'] at hp
  obtain ⟨⟨hseq, hcb⟩, hdone⟩ := hp
  have hopened : Store.Opened { callbacks := 2 } :=
    ⟨opened_new.kept, rfl, rfl, rfl, rfl⟩
  obtain ⟨new, hnew, hall⟩ := subscribers_see_the_log hopened rfl hs
  refine ⟨s, hs, hseq, hcb, ?_⟩
  rw [(hall 1 (by omega) "r").2.2 hdone, hnew]
  rfl

end JAgent
