import JAgent.Storage.Transitions

/-! # The log is append-only and numbered without gaps

Whatever the calls, their interleaving, the failures and the cancellations: the committed rows of a
run are numbered `1, 2, …, n`, no idempotency key and no claim of a request is there twice, and what
is committed stays (`append_only_log`).

The unique constraints alone do not number the rows.  What does is that every INSERT in the queue
carries a number that is at most one above the committed rows (`Tables.Near`), orphaned INSERTs
included: `MAX(seq) + 1` was read when the open transaction had not written yet, and committed rows
only become more.  The primary key then leaves the next number as the only one to insert. -/

namespace JAgent
open Lib

/-! ### Well kept tables -/

/-- The rows of each run are numbered from 1 in the order of insertion; keys and claims are
unique. -/
structure Tables.Kept (t : Tables) : Prop where
  numbered : ∀ runId, (t.rowsOf runId).map (·.seq) = List.range' 1 (t.rowsOf runId).length
  keyed : ∀ runId eventType key, (t.events.filter (·.hasKey runId eventType key)).length ≤ 1
  claimed : ∀ tenantId conversationId clientRequestId,
    (t.claims.filter (·.isFor tenantId conversationId clientRequestId)).length ≤ 1

/-- Every row of `t` is in `t'`, in the same place. -/
def Tables.Within (t t' : Tables) : Prop := t.events <+: t'.events ∧ t.claims <+: t'.claims

/-- A number that does not leave a gap behind the rows of a run. -/
def Tables.Near (t : Tables) (runId : String) (n : ℕ) : Prop :=
  1 ≤ n ∧ n ≤ (t.rowsOf runId).length + 1

namespace Tables
variable {t t' t'' : Tables}

theorem Within.refl (t : Tables) : t.Within t := ⟨List.prefix_refl _, List.prefix_refl _⟩

theorem Within.trans (h : t.Within t') (h' : t'.Within t'') : t.Within t'' :=
  ⟨h.1.trans h'.1, h.2.trans h'.2⟩

theorem within_addEvent (t : Tables) (row : EventRow) : t.Within (t.addEvent row) :=
  ⟨List.prefix_append _ _, List.prefix_refl _⟩

theorem within_addClaim (t : Tables) (c : ClaimRow) : t.Within (t.addClaim c) :=
  ⟨List.prefix_refl _, List.prefix_append _ _⟩

theorem Within.length_rowsOf (h : t.Within t') (runId : String) :
    (t.rowsOf runId).length ≤ (t'.rowsOf runId).length :=
  (h.1.filter _).length_le

theorem Near.mono {runId : String} {n : ℕ} (h : t.Near runId n) (hw : t.Within t') :
    t'.Near runId n := by
  have := hw.length_rowsOf runId
  have hle := h.2
  exact ⟨h.1, by omega⟩

theorem rowsOf_addEvent (t : Tables) (row : EventRow) (runId : String) :
    (t.addEvent row).rowsOf runId =
      t.rowsOf runId ++ if row.runId = runId then [row] else [] := by
  unfold rowsOf addEvent
  rw [List.filter_append]
  split_ifs with h <;> simp [h]

/-- The primary key leaves only the next number. -/
theorem Kept.seq_eq (hk : t.Kept) {row : EventRow} (hn : t.clashesOnSeq row = false)
    (hlow : 1 ≤ row.seq) (hup : row.seq ≤ (t.rowsOf row.runId).length + 1) :
    row.seq = (t.rowsOf row.runId).length + 1 := by
  by_contra hne
  have hmem : row.seq ∈ (t.rowsOf row.runId).map (·.seq) := by
    rw [hk.numbered, List.mem_range'_1]
    omega
  obtain ⟨row', hrow', heq⟩ := List.mem_map.mp hmem
  have : t.clashesOnSeq row = true := List.any_eq_true.mpr ⟨row', hrow', by simpa using heq⟩
  rw [hn] at this
  exact absurd this (by simp)

theorem Kept.addEvent (hk : t.Kept) {row : EventRow} (hkey : t.clashesOnKey row = false)
    (hseq : row.seq = (t.rowsOf row.runId).length + 1) : (t.addEvent row).Kept where
  numbered runId := by
    rw [rowsOf_addEvent]
    split_ifs with h
    · rw [List.map_append, hk.numbered, List.length_append, List.length_singleton,
        List.range'_concat, ← h, List.map_singleton, hseq]
      congr 2
      omega
    · simpa using hk.numbered runId
  keyed runId eventType key := by
    simp only [Tables.addEvent, List.filter_append, List.length_append]
    cases hrow : row.hasKey runId eventType key with
    | false => simpa [hrow] using hk.keyed runId eventType key
    | true =>
        -- A row with this key would have been refused.
        have hfil : t.events.filter (·.hasKey runId eventType key) = [] := by
          simp only [EventRow.hasKey, Bool.and_eq_true, decide_eq_true_eq] at hrow
          simp only [clashesOnKey, hrow.2, Option.any_some, hrow.1.1, hrow.1.2] at hkey
          rw [List.filter_eq_nil_iff]
          exact fun r hr => by simpa using List.any_eq_false.mp hkey r hr
        simp [hfil, hrow]
  claimed := hk.claimed

theorem Kept.addClaim (hk : t.Kept) {c : ClaimRow} (hc : t.clashesOnClaim c = false) :
    (t.addClaim c).Kept where
  numbered := hk.numbered
  keyed := hk.keyed
  claimed tenantId conversationId clientRequestId := by
    simp only [Tables.addClaim, List.filter_append, List.length_append]
    cases hrow : c.isFor tenantId conversationId clientRequestId with
    | false => simpa [hrow] using hk.claimed tenantId conversationId clientRequestId
    | true =>
        have hfil : t.claims.filter (·.isFor tenantId conversationId clientRequestId) = [] := by
          simp only [ClaimRow.isFor, Bool.and_eq_true, decide_eq_true_eq] at hrow
          rw [clashesOnClaim, hrow.1.1, hrow.1.2, hrow.2] at hc
          rw [List.filter_eq_nil_iff]
          exact fun r hr => by simpa using List.any_eq_false.mp hc r hr
        simp [hfil, hrow]

theorem max?_range' (n : ℕ) : (List.range' 1 n).max?.getD 0 = n := by
  cases n with
  | zero => rfl
  | succ n =>
      have hm : (List.range' 1 (n + 1)).max? = some (n + 1) := by
        rw [List.max?_eq_some_iff]
        refine ⟨List.mem_range'_1.mpr (by omega), ?_⟩
        intro b hb
        have := List.mem_range'_1.mp hb
        omega
      rw [hm, Option.getD_some]

/-- `COALESCE(MAX(seq), 0) + 1` is the next number. -/
theorem Kept.nextSeq (hk : t.Kept) (runId : String) :
    (Query.nextSeq runId).answer t = .seq ((t.rowsOf runId).length + 1) := by
  simp only [Query.answer]
  rw [hk.numbered, max?_range']

end Tables

/-! ### The statements -/

/-- The committed tables and those of the open transaction are well kept, and the transaction has
only added rows. -/
structure Db.Sound (db : Db) : Prop where
  kept : db.committed.Kept
  keptView : db.view.Kept
  within : db.committed.Within db.view

/-- The open transaction has not written an event. -/
def Db.Clean (db : Db) : Prop := db.view.events = db.committed.events

namespace Db
variable {db : Db}

@[simp] theorem view_withTxn (t : Tables) : (db.withTxn t).view = t := rfl

@[simp] theorem committed_withTxn (t : Tables) : (db.withTxn t).committed = db.committed := rfl

theorem sound_of_closed {t : Tables} (h : t.Kept) : Db.Sound { committed := t } :=
  ⟨h, h, .refl t⟩

/-- Every statement keeps the tables sound, when an INSERT has a near number, and what is
committed. -/
theorem Sound.exec (h : db.Sound) (op : SqlOp)
    (hn : ∀ row, op = .insertEvent row → db.committed.Near row.runId row.seq) :
    (db.exec op).1.Sound ∧ db.committed.Within (db.exec op).1.committed := by
  cases op with
  | begin =>
      simp only [Db.exec]
      split_ifs
      · exact ⟨h, .refl _⟩
      · exact ⟨⟨h.kept, h.kept, .refl _⟩, .refl _⟩
  | commit => exact ⟨sound_of_closed h.keptView, h.within⟩
  | rollback => exact ⟨sound_of_closed h.kept, .refl _⟩
  | insertEvent row =>
      have same : (db.withTxn db.view).Sound ∧ db.committed.Within db.committed :=
        ⟨⟨h.kept, h.keptView, h.within⟩, .refl _⟩
      simp only [Db.exec]
      split_ifs with hkey hseq
      · exact same
      · exact same
      · refine ⟨⟨h.kept, ?_, h.within.trans (Tables.within_addEvent _ _)⟩, .refl _⟩
        have hnear := (hn row rfl).mono h.within
        apply h.keptView.addEvent (by simpa using hkey)
        exact h.keptView.seq_eq (by simpa using hseq) hnear.1 hnear.2
  | insertClaim c =>
      simp only [Db.exec]
      split_ifs with hc
      · exact ⟨⟨h.kept, h.keptView, h.within⟩, .refl _⟩
      · exact ⟨⟨h.kept, h.keptView.addClaim (by simpa using hc),
          h.within.trans (Tables.within_addClaim _ _)⟩, .refl _⟩
  | select q => exact ⟨h, .refl _⟩
  | fetch a => exact ⟨h, .refl _⟩

theorem Sound.execWith (h : db.Sound) (op : SqlOp) (f : Fault)
    (hn : ∀ row, op = .insertEvent row → db.committed.Near row.runId row.seq) :
    (db.execWith op f).1.Sound ∧ db.committed.Within (db.execWith op f).1.committed := by
  cases f with
  | none => exact h.exec op hn
  | abort => exact ⟨h, .refl _⟩
  | rollback => exact ⟨sound_of_closed h.kept, .refl _⟩

/-- A read leaves the transaction as it is, or loses it. -/
theorem execWith_read {op : SqlOp} (hop : op.isWrite = false) (f : Fault) :
    (db.execWith op f).1 = db ∨ (db.execWith op f).1 = { committed := db.committed } := by
  cases f with
  | none => cases op <;> first | exact .inl rfl | exact absurd hop (by simp [SqlOp.isWrite])
  | abort => exact .inl rfl
  | rollback => exact .inr rfl

theorem Clean.execWith (h : db.Clean) {op : SqlOp} (hop : op.isWrite = false) (f : Fault) :
    (db.execWith op f).1.Clean := by
  rcases db.execWith_read hop f with he | he
  · rw [he]
    exact h
  · rw [he]
    rfl

/-- A transaction that has just begun is clean. -/
theorem clean_of_begin {f : Fault} (h : (db.execWith .begin f).2 = .done) :
    (db.execWith .begin f).1.Clean := by
  cases f with
  | none =>
      simp only [Db.execWith, Db.exec] at h ⊢
      split_ifs at h ⊢
      rfl
  | abort => exact absurd h (by simp [Db.execWith])
  | rollback => exact absurd h (by simp [Db.execWith])

/-- A cursor is the answer of a SELECT on what the connection sees. -/
theorem eq_of_cursor {op : SqlOp} {a : SqlAnswer} {f : Fault} (h : (db.execWith op f).2 = .cursor a) :
    ∃ q, op = .select q ∧ a = q.answer db.view := by
  cases f with
  | none =>
      cases op with
      | select q => exact ⟨q, rfl, (SqlResult.cursor.inj h).symm⟩
      | begin | insertEvent _ | insertClaim _ =>
          simp only [Db.execWith, Db.exec] at h
          split_ifs at h
      | commit | rollback | fetch _ => exact absurd h (by simp [Db.execWith, Db.exec])
  | abort => exact absurd h (by simp [Db.execWith])
  | rollback => exact absurd h (by simp [Db.execWith])

/-- Rows are fetched as they were selected. -/
theorem eq_of_answer {op : SqlOp} {a : SqlAnswer} {f : Fault} (h : (db.execWith op f).2 = .answer a) :
    op = .fetch a := by
  cases f with
  | none =>
      cases op with
      | fetch b => rw [SqlResult.answer.inj h]
      | begin | insertEvent _ | insertClaim _ =>
          simp only [Db.execWith, Db.exec] at h
          split_ifs at h
      | commit | rollback | select _ => exact absurd h (by simp [Db.execWith, Db.exec])
  | abort => exact absurd h (by simp [Db.execWith])
  | rollback => exact absurd h (by simp [Db.execWith])

end Db

/-! ### The calls -/

/-- `claim_client_request` writes the first row of a run and does not ask for a number. -/
def StoreCall.isClaim : StoreCall → Bool
  | .claim .. => true
  | _ => false

/-- The row of a stage is as the call makes it. -/
def Stage.Fits (call : StoreCall) : Stage → Prop
  | .queued row => call.isClaim = true → row.seq = 1
  | .writing row _ pc => (call.isClaim = true → row.seq = 1) ∧
      (pc = .claiming → call.isClaim = true) ∧ (pc = .numbering → call.isClaim = false)
  | _ => True

/-- The open transaction is this call's own. -/
def StoreTask.inTxn (t : StoreTask) : Bool :=
  match t.stage with
  | .writing _ _ (.beginning _) => t.mail = some .done
  | .writing _ _ .numbering | .writing _ _ .claiming | .writing _ _ .inserting
  | .writing _ _ .committing => true
  | _ => false

theorem StoreTask.inTxn.inside {t : StoreTask} (h : t.inTxn) : t.stage.inside := by
  unfold StoreTask.inTxn at h
  split at h <;> simp_all [Stage.inside]

/-- An answer on its way to a call. -/
def StoreTask.Hears (t : StoreTask) (ops : List SqlOp) (a : SqlAnswer) : Prop :=
  t.mail = some (.cursor a) ∨ t.mail = some (.answer a) ∨ .fetch a ∈ ops

/-- What a call knows about the numbers it is going to use. -/
structure StoreTask.Numbers (t : StoreTask) (db : Db) (q : List (Ticket SqlOp)) (i : ℕ) :
    Prop where
  fits : t.stage.Fits t.call
  begun : ∀ row n b, t.stage = .writing row n (.beginning b) → t.mail = some .done → db.Clean
  selecting : ∀ row n, t.stage = .writing row n .numbering →
    .select (.nextSeq row.runId) ∈ owned i q → db.Clean
  heard : ∀ row n k, t.stage = .writing row n .numbering → t.Hears (owned i q) (.seq k) →
    db.committed.Near row.runId k
  quiet : t.inTxn → Quiet SqlOp.isWrite i q

/-- The state of the store in every run. -/
structure Numbered (s : Store) : Prop where
  orderly : Orderly s
  sound : s.db.Sound
  inserts : ∀ e ∈ s.queue, ∀ row, e.op = .insertEvent row → s.db.committed.Near row.runId row.seq
  numbers : ∀ (i : ℕ) (t : StoreTask), s.tasks[i]? = some t → t.Numbers s.db s.queue i

/-! ### The worker's moves -/

section Serving
variable {s : Store} {e : Ticket SqlOp} {rest : List (Ticket SqlOp)} {f : Fault}

theorem Numbered.near_head (hs : Numbered s) (hq : s.queue = e :: rest) :
    ∀ row, e.op = .insertEvent row → s.db.committed.Near row.runId row.seq :=
  hs.inserts e (by rw [hq]; exact List.mem_cons_self)

/-- The statement of another call does not write while a call is in its transaction. -/
theorem Numbered.isWrite_head (hs : Numbered s) (hq : s.queue = e :: rest) {i : ℕ} {t : StoreTask}
    (ht : s.tasks[i]? = some t) (hin : t.inTxn) (ho : e.owner ≠ some i) : e.op.isWrite = false := by
  have hquiet := (hs.numbers i t ht).quiet hin
  by_contra hw
  apply ho
  apply hquiet e
  · rw [hq]
    exact List.mem_cons_self
  · simpa using hw

/-- A call that the statement does not belong to. -/
theorem Numbered.serve_other (hs : Numbered s) (hq : s.queue = e :: rest) {i : ℕ} {t : StoreTask}
    (ht : s.tasks[i]? = some t) (ho : e.owner ≠ some i) :
    t.Numbers (s.db.execWith e.op f).1 rest i := by
  have h := hs.numbers i t ht
  have hw := (hs.sound.execWith e.op f (hs.near_head hq)).2
  have hclean : t.inTxn → s.db.Clean → (s.db.execWith e.op f).1.Clean := fun hin hc =>
    hc.execWith (hs.isWrite_head hq ht hin ho) f
  refine ⟨h.fits, ?_, ?_, ?_, ?_⟩
  · intro row n b hst hm
    exact hclean (by simp [StoreTask.inTxn, hst, hm]) (h.begun row n b hst hm)
  · intro row n hst hsel
    rw [owned_rest_other hq ho] at hsel
    exact hclean (by simp [StoreTask.inTxn, hst]) (h.selecting row n hst hsel)
  · intro row n k hst hh
    rw [owned_rest_other hq ho] at hh
    exact (h.heard row n k hst hh).mono hw
  · intro hin
    have := h.quiet hin
    rw [hq] at this
    exact this.tail

/-- The call that gets the result. -/
theorem Numbered.serve_owner (hs : Numbered s) (hq : s.queue = e :: rest) {i : ℕ} {t : StoreTask}
    (ht : s.tasks[i]? = some t) (ho : e.owner = some i) :
    { t with mail := some (s.db.execWith e.op f).2 : StoreTask}.Numbers (s.db.execWith e.op f).1
      rest i := by
  have h := hs.numbers i t ht
  have hw := (hs.sound.execWith e.op f (hs.near_head hq)).2
  have hexp := hs.orderly.expects i t ht
  rw [owned_rest_owner hq ho] at hexp
  obtain ⟨hm, hnil, ha⟩ := hexp.awaits
  refine ⟨h.fits, ?_, ?_, ?_, ?_⟩
  · intro row n b hst hd
    dsimp only at hst
    rw [hst] at ha
    simp only [Awaits] at ha
    rw [ha] at hd ⊢
    exact Db.clean_of_begin (Option.some.inj hd)
  · intro row n hst hsel
    rw [hnil] at hsel
    exact absurd hsel List.not_mem_nil
  · intro row n k hst hh
    dsimp only at hst
    rcases hh with hh | hh | hh
    · -- The SELECT ran in a transaction that had not written yet.
      obtain ⟨q, hop, hk⟩ := Db.eq_of_cursor (Option.some.inj hh)
      rw [hst, hop] at ha
      have hsel : q = .nextSeq row.runId := by simpa [Awaits] using ha
      have hc : s.db.Clean := by
        apply h.selecting row n hst
        rw [owned_rest_owner hq ho, hop, hsel]
        exact List.mem_cons_self
      have hlen : (s.db.view.rowsOf row.runId).length = (s.db.committed.rowsOf row.runId).length := by
        unfold Tables.rowsOf
        rw [hc]
      rw [hsel, hs.sound.keptView.nextSeq, SqlAnswer.seq.injEq] at hk
      apply Tables.Near.mono _ hw
      exact ⟨by omega, by omega⟩
    · have hop := Db.eq_of_answer (Option.some.inj hh)
      apply (h.heard row n k hst (.inr (.inr _))).mono hw
      rw [owned_rest_owner hq ho, hop]
      exact List.mem_cons_self
    · rw [hnil] at hh
      exact absurd hh List.not_mem_nil
  · intro hin
    have hside := StoreTask.inTxn.inside hin
    have hhold := (hs.orderly.locked i).mpr ⟨t, ht, hside⟩
    have htrail := hs.orderly.trailing i hhold
    rw [hq] at htrail
    exact htrail.2.quiet hnil

theorem Numbered.serve (hs : Numbered s) (hq : s.queue = e :: rest) (f : Fault) :
    Numbered (s.serve e rest f) where
  orderly := hs.orderly.serve hq f
  sound := by
    rw [serve_db]
    exact (hs.sound.execWith e.op f (hs.near_head hq)).1
  inserts e' he' row hrow := by
    rw [serve_queue] at he'
    rw [serve_db]
    have := hs.inserts e' (by rw [hq]; exact List.mem_cons_of_mem _ he') row hrow
    exact this.mono (hs.sound.execWith e.op f (hs.near_head hq)).2
  numbers i t ht := by
    rw [serve_db, serve_queue]
    rcases serve_task ht with ⟨ho, t₀, h0, rfl⟩ | ⟨ho, h0⟩
    · exact hs.serve_owner hq h0 ho
    · exact hs.serve_other hq h0 ho

end Serving

/-! ### The moves of the calls -/

section Going
variable {s u : Store} {i : ℕ} {call : StoreCall} {stage : Stage} {op : Option SqlOp}

/-- A call in its transaction stays undisturbed by the moves of others. -/
theorem Goes.numbers_other (h : Goes s u i call stage op) (hs : Numbered s) {j : ℕ} (hj : j ≠ i)
    {t : StoreTask} (ht : s.tasks[j]? = some t) : t.Numbers u.db u.queue j := by
  have hn := hs.numbers j t ht
  rw [h.db]
  refine ⟨hn.fits, hn.begun, ?_, ?_, ?_⟩
  · rw [h.owned_other hj]
    exact hn.selecting
  · rw [h.owned_other hj]
    exact hn.heard
  · intro hin
    have hhold := (hs.orderly.locked j).mpr ⟨t, ht, StoreTask.inTxn.inside hin⟩
    have hst : stage.inside = false := by
      by_contra hst
      rcases h.entry (by simpa using hst) with he | he
      · rw [he] at hhold
        exact hj (Option.some.inj hhold).symm
      · rw [he] at hhold
        exact absurd hhold (by simp)
    exact h.quiet_other hj hst (hn.quiet hin)

/-- The writes in the queue stay the call's own. -/
theorem Goes.quiet_self (h : Goes s u i call stage op) (hown : owned i s.queue = [])
    (hquiet : Quiet SqlOp.isWrite i s.queue) : Quiet SqlOp.isWrite i u.queue := by
  obtain ⟨q, hq, _, hu⟩ := h.queue
  have hreads : ∀ e ∈ s.queue, e.op.isWrite = false := by
    intro e he
    by_contra hw
    have hmem : e.op ∈ owned i s.queue := by
      rw [mem_owned, ← hquiet e he (by simpa using hw)]
      exact he
    rw [hown] at hmem
    exact absurd hmem List.not_mem_nil
  intro e he hw
  rw [hu] at he
  rcases List.mem_append.mp he with he | he
  · have : ∃ e' ∈ s.queue, e'.op = e.op := by
      rcases hq with rfl | rfl
      · exact ⟨e, he, rfl⟩
      · exact mem_disown he
    obtain ⟨e', he', heq⟩ := this
    rw [← heq, hreads e' he'] at hw
    exact absurd hw (by simp)
  · obtain ⟨o, _, rfl⟩ := List.mem_map.mp he
    rfl

theorem fits_finalStage (row : EventRow) : (Store.finalStage call row).Fits call := by
  cases call <;> exact trivial

theorem Follows.fits {st : Stage} {r : SqlResult} (hf : Follows s call st r stage op)
    (h : st.Fits call) : stage.Fits call := by
  cases hf with
  | fetch _ => exact h
  | finish hs => exact hs ▸ fits_finalStage _
  | miss hc | free hc | claiming hc => simp_all [Stage.Fits, StoreCall.isClaim, ClaimRow.runStarted]
  | numbering hc =>
      refine ⟨h.1, by simp, fun _ => ?_⟩
      cases call with
      | claim c p w => exact absurd rfl (hc c p w)
      | _ => rfl
  | numbered =>
      refine ⟨fun hc => ?_, by simp, by simp⟩
      rw [h.2.2 rfl] at hc
      exact absurd hc (by simp)
  | orphan | recovered | claimed | inserted | cleanUp _ | retry | recheck _ _ =>
      exact ⟨h.1, by simp, by simp⟩
  | _ => exact trivial

theorem Origin.fits (ho : Origin s i call stage op) (hs : Numbered s) : stage.Fits call := by
  cases ho with
  | resumes ht hc _ hf =>
      have h := (hs.numbers i _ ht).fits
      rw [hc] at h
      exact hf.fits h
  | keyless _ hc => simp [hc, Stage.Fits, StoreCall.isClaim]
  | @acquires t row ht hc hst =>
      have h := (hs.numbers i t ht).fits
      rw [hc, hst] at h
      exact ⟨h, by simp, by simp⟩
  | @cleansUp t row n pc ht hc hst =>
      have h := (hs.numbers i t ht).fits
      rw [hc, hst] at h
      exact ⟨h.1, by simp, by simp⟩
  | finishes _ _ _ hs => exact hs ▸ fits_finalStage _
  | _ => exact trivial

/-- MAX(seq) is asked for right after BEGIN. -/
theorem Origin.clean {row : EventRow} {n : ℕ} {q : Query}
    (ho : Origin s i call (.writing row n .numbering) (some (.select q))) (hs : Numbered s) :
    s.db.Clean := by
  cases ho with
  | @resumes t r _ _ ht hc hm hf =>
      have h := (hs.numbers i t ht).begun
      generalize t.stage = st at hf h
      cases hf with
      | numbering _ => exact h _ _ _ rfl hm

/-- The number that is fetched is the one that was selected. -/
theorem Origin.near_fetch {row : EventRow} {n k : ℕ}
    (ho : Origin s i call (.writing row n .numbering) (some (.fetch (.seq k)))) (hs : Numbered s) :
    s.db.committed.Near row.runId k := by
  cases ho with
  | @resumes t r _ _ ht hc hm hf =>
      have h := (hs.numbers i t ht).heard
      generalize hst : t.stage = st at hf h
      cases hf with
      | fetch _ => exact h _ _ _ rfl (.inl hm)

/-- An INSERT has the number that was fetched, or is the first of its run. -/
theorem Origin.near_insert {row : EventRow} (ho : Origin s i call stage (some (.insertEvent row)))
    (hs : Numbered s) : s.db.committed.Near row.runId row.seq := by
  cases ho with
  | @resumes t r _ _ ht hc hm hf =>
      have h := hs.numbers i t ht
      have hheard := h.heard
      have hfits := h.fits
      generalize t.stage = st at hf hheard hfits
      cases hf with
      | @numbered row _ k => exact hheard row _ k rfl (.inr (.inl hm))
      | claimed =>
          have hseq : row.seq = 1 := hfits.1 (hfits.2.1 rfl)
          exact ⟨by omega, by omega⟩

/-- A call that goes on in its transaction was in it. -/
theorem Origin.quiet {row : EventRow} {n : ℕ} {pc : TxnPc}
    (ho : Origin s i call (.writing row n pc) op) (hs : Numbered s)
    (hin : StoreTask.inTxn ⟨call, .writing row n pc, none⟩) :
    owned i s.queue = [] ∧ Quiet SqlOp.isWrite i s.queue := by
  cases ho with
  | @resumes t r _ _ ht hc hm hf =>
      refine ⟨(hs.orderly.expects i t ht).nil (by simp [hm]), ?_⟩
      have h := (hs.numbers i t ht).quiet
      apply h
      unfold StoreTask.inTxn at hin ⊢
      generalize t.stage = st at hf
      cases hf <;> simp_all
  | acquires _ _ _ | cleansUp _ _ _ => exact absurd hin (by simp [StoreTask.inTxn])
  | @finishes t row' _ _ _ _ _ hst =>
      have := inside_finalStage call row'
      rw [← hst] at this
      exact absurd this (by simp [Stage.inside])

/-- What the call that goes on knows. -/
theorem Goes.numbers_self (h : Goes s u i call stage op) (ho : Origin s i call stage op)
    (hs : Numbered s) : (⟨call, stage, none⟩ : StoreTask).Numbers u.db u.queue i := by
  rw [h.db]
  refine ⟨ho.fits hs, by simp, ?_, ?_, ?_⟩
  · intro row n hst hsel
    simp only at hst
    rw [h.owned_self, Option.mem_toList] at hsel
    rw [hst, hsel] at ho
    exact ho.clean hs
  · intro row n k hst hh
    simp only at hst
    rcases hh with hh | hh | hh
    · exact absurd hh (by simp)
    · exact absurd hh (by simp)
    · rw [h.owned_self, Option.mem_toList] at hh
      rw [hst, hh] at ho
      exact ho.near_fetch hs
  · intro hin
    have hside := StoreTask.inTxn.inside hin
    cases stage with
    | writing row n pc =>
        obtain ⟨hown, hq⟩ := ho.quiet hs hin
        exact h.quiet_self hown hq
    | _ => exact absurd hside (by simp [Stage.inside])

theorem Goes.numbered (h : Goes s u i call stage op) (ho : Origin s i call stage op)
    (hs : Numbered s) : Numbered u where
  orderly := h.orderly hs.orderly
  sound := by
    rw [h.db]
    exact hs.sound
  inserts e he row hrow := by
    rw [h.db]
    rcases h.mem_queue he with ⟨e', he', heq⟩ | heq
    · exact hs.inserts e' he' row (heq.trans hrow)
    · rw [heq, hrow] at ho
      exact ho.near_insert hs
  numbers j t ht := by
    by_cases hj : j = i
    · rw [hj, h.self, Option.some.injEq] at ht
      rw [hj, ← ht]
      exact h.numbers_self ho hs
    · rw [h.other j hj] at ht
      exact h.numbers_other hs hj ht

end Going

/-! ### Every run -/

/-- A store after `initialize`: no call and no transaction is open, and the tables are as an
earlier session left them. -/
structure Store.Opened (s : Store) : Prop where
  kept : s.db.committed.Kept
  closed : s.db.working = none
  queue : s.queue = []
  holder : s.holder = none
  tasks : s.tasks = []

theorem Store.Opened.numbered {s : Store} (h : s.Opened) : Numbered s := by
  have hview : s.db.view = s.db.committed := by simp [Db.view, h.closed]
  refine ⟨⟨?_, ?_, ?_, ?_⟩, ⟨h.kept, ?_, ?_⟩, ?_, ?_⟩
  · intro i
    simp [h.holder, h.tasks]
  · intro i _
    rw [h.queue]
    rfl
  · intro i t ht
    simp [h.tasks] at ht
  · intro i hi
    simp [h.holder] at hi
  · rw [hview]
    exact h.kept
  · rw [hview]
    exact .refl _
  · intro e he
    simp [h.queue] at he
  · intro i t ht
    simp [h.tasks] at ht

/-- A move keeps the invariant and what is committed. -/
theorem Numbered.step {s u : Store} {m : StoreMove} (hs : Numbered s) (h : storeStep s m = some u) :
    Numbered u ∧ s.db.committed.Within u.db.committed := by
  rcases storeStep_cases hs.orderly h with ⟨f, e, rest, _, hq, rfl⟩ | ⟨i, call, stage, op, hg, ho⟩
  · refine ⟨hs.serve hq f, ?_⟩
    rw [serve_db]
    exact (hs.sound.execWith e.op f (hs.near_head hq)).2
  · refine ⟨hg.numbered ho hs, ?_⟩
    rw [hg.db]
    exact .refl _

theorem Numbered.reaches {s t : Store} (hs : Numbered s) (h : Reaches storeStep s t) :
    Numbered t ∧ s.db.committed.Within t.db.committed := by
  refine h.invariant (I := fun t => Numbered t ∧ s.db.committed.Within t.db.committed)
    ⟨hs, .refl _⟩ ?_
  intro t u m _ ht hu
  obtain ⟨hn, hw⟩ := ht.1.step hu
  exact ⟨hn, ht.2.trans hw⟩

/-- **The log is append-only**: in every run the committed rows of each run are numbered `1 … n`,
keys and claims are unique, and committed rows stay where they are. -/
theorem append_only_log {s₀ s : Store} (h0 : s₀.Opened) (h : Reaches storeStep s₀ s) :
    s.db.committed.Kept ∧
      ∀ t, Reaches storeStep s t → s.db.committed.Within t.db.committed := by
  have hs := (h0.numbered.reaches h).1
  refine ⟨hs.sound.kept, fun t ht => (hs.reaches ht).2⟩

/-- A store on a new database. -/
theorem opened_new : Store.Opened {} := by
  refine ⟨⟨?_, ?_, ?_⟩, rfl, rfl, rfl, rfl⟩ <;> simp [Tables.rowsOf]

/-- A keyless step event of run "r". -/
def plainDraft : EventDraft := { runId := "r", eventType := .step, payload := [] }

/-- The moves of an append from its BEGIN on, when nothing goes wrong. -/
def appendMoves (i : ℕ) : List StoreMove :=
  [.resume i, .execute .none, .resume i, .execute .none, .resume i, .execute .none, .resume i,
    .execute .none, .resume i]

/-- The first append is cancelled after its INSERT and again during its ROLLBACK; the second has
begun before that ROLLBACK is executed. -/
def interruptedAppend : List StoreMove :=
  [StoreMove.call (.append plainDraft), .call (.append plainDraft), .call (.append plainDraft),
    .acquire 0, .execute .none, .resume 0, .execute .none, .resume 0, .execute .none, .resume 0, .execute .none,
    .cancel 0, .cancel 0, .acquire 1, .execute .none, .execute .none] ++ appendMoves 1 ++
  [StoreMove.acquire 2, .execute .none] ++ appendMoves 2

/-- The cancelled append leaves no gap. -/
theorem interrupted_append_leaves_no_gap : ∃ s, Reaches storeStep {} s ∧
    s.db.committed.events.map (·.seq) = [1, 2] ∧ s.db.committed.Kept ∧
      ∀ t, Reaches storeStep s t → s.db.committed.Within t.db.committed := by
  obtain ⟨s, hs, hp⟩ := exists_reaches_of_run storeStep interruptedAppend {}
    (fun s => s.db.committed.events.map (·.seq) = [1, 2]) (by rfl)
  exact ⟨s, hs, of_decide_eq_true hp, append_only_log opened_new hs⟩

end JAgent
