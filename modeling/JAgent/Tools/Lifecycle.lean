import JAgent.Tools.Approval

/-! # From the call to its result

A call that runs its tool function appends Tool called and, on its way out, one result: completed,
failed or timed out.  `LifeStep` lists what one action does to this account.  Two actions leave the
tool function behind without a result: the exit after an inner confirmation request, and the
recording of a completion under a key that another call has recorded in the meantime.  Ids come
from the caller or are drawn, but a confirmed call takes over the id of the request, and so does
every later call that the same confirmation lets through.

`calls_are_answered` is about runs without these: every call opens an id that nobody else has open
or has opened, and no action loses a result. -/

namespace JAgent

/-- The id of the call that a payload opens. -/
def Payload.calledId : Payload → Option String
  | .toolCalled p => some p.toolCallId
  | _ => none

/-- The id of the call that a payload is the result of. -/
def Payload.resultId : Payload → Option String
  | .toolCompleted p => some p.toolCallId
  | .toolFailed toolCallId .. | .toolTimeout toolCallId .. => some toolCallId
  | _ => none

namespace Log
variable (log : Log)

/-- The ids of the Tool called events. -/
def calledIds : List String := log.filterMap fun r => r.payload.calledId

/-- The number of results with an id. -/
def results (id : String) : ℕ := log.countP fun r => r.payload.resultId = some id

end Log

/-- The tool function has been called and the result is not yet written. -/
def CallPc.inCall : CallPc → Bool
  | .invoking _ | .rejecting _ | .unsuccessful .. | .offloading .. | .noting .. | .recording ..
  | .failing _ => true
  | _ => false

/-- No two calls share an id, and when every call has ended, every Tool called event is followed by
exactly one result with its id. -/
structure CallsAnswered {W : Type} (t : Traffic W) : Prop where
  distinct : t.shared.log.calledIds.Nodup
  answered : (∀ f ∈ t.flights, f.proc.pc.finished = true) → ∀ pre row post id,
    t.shared.log = pre ++ row :: post → row.payload.calledId = some id → Log.results post id = 1

/-! ### What one action does -/

/-- The log stays, or gets a row that neither opens a call nor is a result. -/
def KeepsAccount (log log' : Log) : Prop :=
  log' = log ∨ ∃ row, log' = log ++ [row] ∧ row.payload.calledId = none ∧ row.payload.resultId = none

namespace ToolExecutor
variable {W : Type} [Py] (x : ToolExecutor W)

/-- The action ends a call whose result is never written. -/
def losesResult (p : Proc W) (log : Log) : Bool :=
  match p.pc with
  | .recording .. => match x.key p.call with
    | none => false
    | some k => (log.findByIdempotencyKey .tool k).isSome
  | .failing (.confirmationNeeded ..) => true
  | _ => false

/-- The id that the action takes over from a confirmed request. -/
def takesOver (p : Proc W) (log : Log) : Option String :=
  match p.pc with
  | .answering request => match log.findConfirmationById request.confirmationId with
    | some answer => if answer.confirmed then some request.toolCallId else none
    | none => none
  | _ => none

/-- **Everything an action can do to the account of the calls.** -/
inductive LifeStep (p : Proc W) (s : Shared W) (p' : Proc W) (log' : Log) : Prop
  /-- The call goes on before its tool function is called, or ends there. -/
  | before : p.pc.inCall = false → p'.toolCallId = p.toolCallId → p'.pc.inCall = false →
      KeepsAccount s.log log' → LifeStep p s p' log'
  | take {id : String} : takesOver p s.log = some id → p.pc.inCall = false → p'.pc.inCall = false →
      p'.toolCallId = id → log' = s.log → LifeStep p s p' log'
  /-- A refused call is recorded as failed. -/
  | deny {row : Row} : p.pc.inCall = false → p'.toolCallId = p.toolCallId → p'.pc.inCall = false →
      log' = s.log ++ [row] → row.payload.calledId = none →
      row.payload.resultId = some p.toolCallId → LifeStep p s p' log'
  | opens {row : Row} : p.pc.inCall = false → p'.toolCallId = p.toolCallId → p'.pc.inCall = true →
      log' = s.log ++ [row] → row.payload.calledId = some p.toolCallId →
      row.payload.resultId = none → LifeStep p s p' log'
  /-- The call goes on after its tool function was called. -/
  | inside : p.pc.inCall = true → p'.toolCallId = p.toolCallId → p'.pc.inCall = true →
      KeepsAccount s.log log' → LifeStep p s p' log'
  | close {row : Row} : p.pc.inCall = true → p'.pc.finished = true → p'.pc.inCall = false →
      log' = s.log ++ [row] → row.payload.calledId = none →
      row.payload.resultId = some p.toolCallId → LifeStep p s p' log'
  | lose : x.losesResult p s.log = true → LifeStep p s p' log'

theorem inCall_afterInvoke (p : Proc W) (attempt : ℕ) (a : Answer) :
    (x.afterInvoke p attempt a).inCall = true := by
  unfold afterInvoke afterOutput
  repeat' split
  all_goals rfl

theorem lifeStep (p : Proc W) (s : Shared W) (hf : p.pc.finished = false) :
    x.LifeStep p s (x.stepCall p s).1 (x.stepCall p s).2.log := by
  obtain ⟨c, tid, pc⟩ := p
  cases pc with
  | guarding =>
      unfold stepCall goto
      dsimp only
      repeat' split
      all_goals exact .before rfl rfl rfl (.inl rfl)
  | blocked r => exact .before rfl rfl rfl (.inr ⟨_, rfl, rfl, rfl⟩)
  | looking confirm =>
      have hmiss : ∀ q : Proc W, (afterMiss q confirm).inCall = false := by
        intro q
        unfold afterMiss
        split_ifs <;> rfl
      unfold stepCall goto
      dsimp only
      repeat' split
      all_goals first
        | exact .before rfl rfl rfl (.inl rfl)
        | exact .before rfl rfl (hmiss _) (.inl rfl)
  | requesting =>
      unfold stepCall goto
      dsimp only
      repeat' split
      all_goals exact .before rfl rfl rfl (.inl rfl)
  | answering request =>
      simp only [stepCall, goto]
      split
      · exact .before rfl rfl rfl (.inl rfl)
      next answer hanswer =>
        split_ifs with hconf
        · have htake : takesOver (⟨c, tid, .answering request⟩ : Proc W) s.log =
              some request.toolCallId := by
            simp only [takesOver, hanswer, hconf, if_true]
          exact .take htake rfl rfl rfl rfl
        · exact .before rfl rfl rfl (.inl rfl)
  | denying => exact .deny rfl rfl rfl rfl rfl rfl
  | asking =>
      refine .before rfl rfl rfl ?_
      simp only [stepCall, Log.appendKeyed]
      split
      · exact .inl rfl
      · exact .inr ⟨_, rfl, rfl, rfl⟩
  | calling =>
      refine .opens rfl rfl ?_ rfl rfl rfl
      show (afterCalled ⟨c, tid, .calling⟩).inCall = true
      obtain hpc | hpc := afterCalled_cases ⟨c, tid, .calling⟩
      all_goals
        rw [hpc]
        rfl
  | invoking attempt => exact .inside rfl rfl (x.inCall_afterInvoke _ _ _) (.inl rfl)
  | rejecting error => exact .close rfl rfl rfl rfl rfl rfl
  | unsuccessful output error n => exact .close rfl rfl rfl rfl rfl rfl
  | offloading output n =>
      unfold stepCall goto
      dsimp only
      repeat' split
      all_goals exact .inside rfl rfl rfl (.inl rfl)
  | noting output blob n => exact .inside rfl rfl rfl (.inr ⟨_, rfl, rfl, rfl⟩)
  | recording output persisted n =>
      by_cases hlose : x.losesResult ⟨c, tid, .recording output persisted n⟩ s.log = true
      · exact .lose hlose
      · simp only [losesResult] at hlose
        cases hk : x.key c with
        | none =>
            simp only [stepCall, hk, Log.appendKeyed]
            exact .close rfl rfl rfl rfl rfl rfl
        | some k =>
            simp only [hk, Bool.not_eq_true, Option.isSome_eq_false_iff, Option.isNone_iff_eq_none] at hlose
            have hlog : (x.stepCall ⟨c, tid, .recording output persisted n⟩ s).2.log = s.log ++
                [⟨completion ⟨c, tid, .recording output persisted n⟩ persisted, some k⟩] := by
              simp only [stepCall, hk, Log.appendKeyed, Payload.eventType, hlose]
              rfl
            exact .close rfl rfl rfl hlog rfl rfl
  | failing e =>
      cases e with
      | timeout => exact .close rfl rfl rfl rfl rfl rfl
      | confirmationNeeded tool cid => exact .lose rfl
      | error kind text => exact .close rfl rfl rfl rfl rfl rfl
  | returned r => cases hf
  | raised e => cases hf

end ToolExecutor

/-! ### The account of a growing log -/

namespace Log
variable {log log' : Log} {row r : Row} {id : String}

@[simp] theorem calledIds_append : Log.calledIds (log ++ [row]) =
    log.calledIds ++ row.payload.calledId.toList := by
  unfold calledIds
  rw [List.filterMap_append]
  cases h : row.payload.calledId <;> simp [h]

@[simp] theorem results_append : Log.results (log ++ [row]) id =
    log.results id + if row.payload.resultId = some id then 1 else 0 := by
  unfold results
  rw [List.countP_append]
  by_cases h : row.payload.resultId = some id <;> simp [h]

theorem mem_calledIds {pre post : Log} (h : log = pre ++ row :: post)
    (hid : row.payload.calledId = some id) : id ∈ log.calledIds := by
  unfold calledIds
  rw [List.mem_filterMap]
  exact ⟨row, by rw [h]; simp, hid⟩

theorem calledIds_of_keepsAccount (h : KeepsAccount log log') :
    log'.calledIds = log.calledIds := by
  rcases h with rfl | ⟨row, rfl, hcalled, _⟩
  · rfl
  · simp [hcalled]

end Log

/-! ### The invariant -/

/-- The call with this id is under way and has no result, or nobody holds the id any more and it has
one result. -/
def Accounted {W : Type} (flights : List (CallFlight W)) (post : Log) (id : String) : Prop :=
  ((∃ f ∈ flights, f.proc.pc.inCall = true ∧ f.proc.toolCallId = id) ∧ post.results id = 0) ∨
    ((∀ f ∈ flights, f.proc.pc.finished = false → f.proc.toolCallId ≠ id) ∧ post.results id = 1)

/-- The ids of the calls under way are held by one call each, and are open exactly from Tool called
to the result. -/
structure LifeInv {W : Type} (flights : List (CallFlight W)) (log : Log) : Prop where
  distinct : log.calledIds.Nodup
  before : ∀ f ∈ flights, f.proc.pc.finished = false → f.proc.pc.inCall = false →
    f.proc.toolCallId ∉ log.calledIds
  holder : ∀ {i j : ℕ} {f g : CallFlight W}, flights[i]? = some f → flights[j]? = some g →
    f.proc.pc.finished = false → g.proc.pc.finished = false →
    f.proc.toolCallId = g.proc.toolCallId → i = j
  account : ∀ {pre post : Log} {row : Row} {id : String}, log = pre ++ row :: post →
    row.payload.calledId = some id → Accounted flights post id

theorem unfinished_of_inCall {pc : CallPc} (h : pc.inCall = true) : pc.finished = false := by
  cases pc <;> first | rfl | cases h

section invariant
variable {W : Type} {flights : List (CallFlight W)} {log log' : Log} {i : ℕ} {f g : CallFlight W}

/-- Rows that neither open a call nor are a result. -/
theorem LifeInv.keeps (h : LifeInv flights log) (hk : KeepsAccount log log') :
    LifeInv flights log' := by
  refine ⟨?_, ?_, h.holder, ?_⟩
  · rw [Log.calledIds_of_keepsAccount hk]
    exact h.distinct
  · rw [Log.calledIds_of_keepsAccount hk]
    exact h.before
  · intro pre post row id hlog hid
    rcases hk with rfl | ⟨new, rfl, hcalled, hresult⟩
    · exact h.account hlog hid
    · rcases Lib.entry_of_append hlog with ⟨_, rfl, _⟩ | ⟨rest, rfl, hrest⟩
      · rw [hcalled] at hid
        cases hid
      · have hacc := h.account hrest hid
        unfold Accounted at hacc ⊢
        rw [Log.results_append, hresult]
        simpa using hacc

/-- A call that goes on with its id holds it alone. -/
theorem LifeInv.holder_set (h : LifeInv flights log) (hf : flights[i]? = some f)
    (hfin : f.proc.pc.finished = false) (hid : g.proc.toolCallId = f.proc.toolCallId) {j k : ℕ}
    {r r' : CallFlight W} (hr : (flights.set i g)[j]? = some r)
    (hr' : (flights.set i g)[k]? = some r') (hrfin : r.proc.pc.finished = false)
    (hrfin' : r'.proc.pc.finished = false) (heq : r.proc.toolCallId = r'.proc.toolCallId) : j = k := by
  rcases getElem?_set_cases hr with ⟨rfl, rfl⟩ | ⟨_, hold⟩
  · rcases getElem?_set_cases hr' with ⟨rfl, rfl⟩ | ⟨_, hold'⟩
    · rfl
    · exact h.holder hf hold' hfin hrfin' (hid ▸ heq)
  · rcases getElem?_set_cases hr' with ⟨rfl, rfl⟩ | ⟨_, hold'⟩
    · exact h.holder hold hf hrfin hfin (hid ▸ heq)
    · exact h.holder hold hold' hrfin hrfin' heq

/-- An open call stays when a call that is not open moves. -/
theorem open_set {id : String} (hf : flights[i]? = some f) (hin : f.proc.pc.inCall = false)
    (h : ∃ r ∈ flights, r.proc.pc.inCall = true ∧ r.proc.toolCallId = id) :
    ∃ r ∈ flights.set i g, r.proc.pc.inCall = true ∧ r.proc.toolCallId = id := by
  obtain ⟨r, hr, hrin, hrid⟩ := h
  obtain ⟨j, hj⟩ := List.mem_iff_getElem?.mp hr
  have hij : i ≠ j := by
    rintro rfl
    obtain rfl : r = f := Option.some.inj (hj.symm.trans hf)
    rw [hin] at hrin
    cases hrin
  exact ⟨r, List.mem_of_getElem? ((List.getElem?_set_ne hij).trans hj), hrin, hrid⟩

/-- A call that goes on with its id, on the same side of its Tool called event, or ends before it. -/
theorem LifeInv.goes (h : LifeInv flights log) (hf : flights[i]? = some f)
    (hfin : f.proc.pc.finished = false) (hid : g.proc.toolCallId = f.proc.toolCallId)
    (hin : g.proc.pc.inCall = f.proc.pc.inCall) : LifeInv (flights.set i g) log := by
  have hmem := List.mem_of_getElem? hf
  refine ⟨h.distinct, ?_, h.holder_set hf hfin hid, ?_⟩
  · intro r hr hrfin hrin
    rcases List.mem_or_eq_of_mem_set hr with hr | rfl
    · exact h.before r hr hrfin hrin
    · rw [hid]
      exact h.before f hmem hfin (hin ▸ hrin)
  · intro pre post row id hlog hcalled
    rcases h.account hlog hcalled with ⟨⟨r, hr, hrin, hrid⟩, hzero⟩ | ⟨hnone, hone⟩
    · refine .inl ⟨?_, hzero⟩
      obtain ⟨j, hj⟩ := List.mem_iff_getElem?.mp hr
      by_cases hij : i = j
      · subst hij
        obtain rfl : r = f := Option.some.inj (hj.symm.trans hf)
        exact ⟨g, List.mem_of_getElem? (List.getElem?_set_self (List.getElem?_eq_some_iff.mp hf).1),
          hin ▸ hrin, hid ▸ hrid⟩
      · exact ⟨r, List.mem_of_getElem? ((List.getElem?_set_ne hij).trans hj), hrin, hrid⟩
    · refine .inr ⟨?_, hone⟩
      intro r hr hrfin
      rcases List.mem_or_eq_of_mem_set hr with hr | rfl
      · exact hnone r hr hrfin
      · rw [hid]
        exact hnone f hmem hfin

/-- A call that is let through takes over an id that nobody has opened or holds. -/
theorem LifeInv.takes (h : LifeInv flights log) (hf : flights[i]? = some f)
    (hin : f.proc.pc.inCall = false) (hnew : g.proc.toolCallId ∉ log.calledIds)
    (hfree : ∀ j r, flights[j]? = some r → j ≠ i → r.proc.pc.finished = false →
      r.proc.toolCallId ≠ g.proc.toolCallId) : LifeInv (flights.set i g) log := by
  refine ⟨h.distinct, ?_, ?_, ?_⟩
  · intro r hr hrfin hrin
    rcases List.mem_or_eq_of_mem_set hr with hr | rfl
    · exact h.before r hr hrfin hrin
    · exact hnew
  · intro j k r r' hr hr' hrfin hrfin' heq
    rcases getElem?_set_cases hr with ⟨rfl, rfl⟩ | ⟨hj, hold⟩
    · rcases getElem?_set_cases hr' with ⟨rfl, rfl⟩ | ⟨hk, hold'⟩
      · rfl
      · exact absurd heq.symm (hfree k r' hold' hk hrfin')
    · rcases getElem?_set_cases hr' with ⟨rfl, rfl⟩ | ⟨_, hold'⟩
      · exact absurd heq (hfree j r hold hj hrfin)
      · exact h.holder hold hold' hrfin hrfin' heq
  · intro pre post row id hlog hcalled
    rcases h.account hlog hcalled with ⟨hopen, hzero⟩ | ⟨hnone, hone⟩
    · exact .inl ⟨open_set hf hin hopen, hzero⟩
    · refine .inr ⟨?_, hone⟩
      intro r hr hrfin
      rcases List.mem_or_eq_of_mem_set hr with hr | rfl
      · exact hnone r hr hrfin
      · rintro rfl
        exact hnew (Log.mem_calledIds hlog hcalled)

/-- A result of a call that was never opened. -/
theorem LifeInv.stray (h : LifeInv flights log) {row : Row} {tid : String}
    (hcalled : row.payload.calledId = none) (hresult : row.payload.resultId = some tid)
    (hnew : tid ∉ log.calledIds) : LifeInv flights (log ++ [row]) := by
  have hids : Log.calledIds (log ++ [row]) = log.calledIds := by simp [hcalled]
  refine ⟨?_, ?_, h.holder, ?_⟩
  · rw [hids]
    exact h.distinct
  · rw [hids]
    exact h.before
  · intro pre post r id hlog hid
    rcases Lib.entry_of_append hlog with ⟨_, rfl, _⟩ | ⟨rest, rfl, hrest⟩
    · rw [hcalled] at hid
      cases hid
    · have hne : tid ≠ id := by
        rintro rfl
        exact hnew (Log.mem_calledIds hrest hid)
      have hacc := h.account hrest hid
      unfold Accounted at hacc ⊢
      rw [Log.results_append, hresult]
      simpa [hne] using hacc

/-- Tool called is appended. -/
theorem LifeInv.opens (h : LifeInv flights log) {row : Row} (hf : flights[i]? = some f)
    (hfin : f.proc.pc.finished = false) (hin : f.proc.pc.inCall = false)
    (hid : g.proc.toolCallId = f.proc.toolCallId) (hgin : g.proc.pc.inCall = true)
    (hcalled : row.payload.calledId = some f.proc.toolCallId) (hresult : row.payload.resultId = none) :
    LifeInv (flights.set i g) (log ++ [row]) := by
  have hmem := List.mem_of_getElem? hf
  have hnew := h.before f hmem hfin hin
  have hself := List.getElem?_set_self (a := g) (List.getElem?_eq_some_iff.mp hf).1
  have hids : Log.calledIds (log ++ [row]) = log.calledIds ++ [f.proc.toolCallId] := by
    simp [hcalled]
  refine ⟨?_, ?_, h.holder_set hf hfin hid, ?_⟩
  · rw [hids, List.nodup_append]
    refine ⟨h.distinct, List.nodup_singleton _, ?_⟩
    intro a ha b hb
    rw [List.mem_singleton] at hb
    subst hb
    rintro rfl
    exact hnew ha
  · intro r hr hrfin hrin
    obtain ⟨j, hj⟩ := List.mem_iff_getElem?.mp hr
    rcases getElem?_set_cases hj with ⟨_, rfl⟩ | ⟨hji, hold⟩
    · rw [hgin] at hrin
      cases hrin
    · rw [hids, List.mem_append, List.mem_singleton, not_or]
      exact ⟨h.before r (List.mem_of_getElem? hold) hrfin hrin,
        fun heq => hji (h.holder hold hf hrfin hfin heq)⟩
  · intro pre post r id hlog hcalledId
    rcases Lib.entry_of_append hlog with ⟨_, rfl, rfl⟩ | ⟨rest, rfl, hrest⟩
    · rw [hcalled] at hcalledId
      obtain rfl := Option.some.inj hcalledId
      exact .inl ⟨⟨g, List.mem_of_getElem? hself, hgin, hid⟩, rfl⟩
    · unfold Accounted
      rw [Log.results_append, hresult]
      rcases h.account hrest hcalledId with ⟨hopen, hzero⟩ | ⟨hnone, hone⟩
      · exact .inl ⟨open_set hf hin hopen, by simpa using hzero⟩
      · refine .inr ⟨?_, by simpa using hone⟩
        intro r' hr' hrfin
        rcases List.mem_or_eq_of_mem_set hr' with hr' | rfl
        · exact hnone r' hr' hrfin
        · rw [hid]
          exact hnone f hmem hfin

/-- The result is appended. -/
theorem LifeInv.closes (h : LifeInv flights log) {row : Row} (hf : flights[i]? = some f)
    (hin : f.proc.pc.inCall = true) (hgfin : g.proc.pc.finished = true)
    (hcalled : row.payload.calledId = none) (hresult : row.payload.resultId = some f.proc.toolCallId) :
    LifeInv (flights.set i g) (log ++ [row]) := by
  have hfin := unfinished_of_inCall hin
  have hids : Log.calledIds (log ++ [row]) = log.calledIds := by simp [hcalled]
  -- the calls under way are those that were, without the one that ended
  have hold : ∀ {j : ℕ} {r : CallFlight W}, (flights.set i g)[j]? = some r →
      r.proc.pc.finished = false → j ≠ i ∧ flights[j]? = some r := by
    intro j r hr hrfin
    rcases getElem?_set_cases hr with ⟨_, rfl⟩ | hold
    · rw [hgfin] at hrfin
      cases hrfin
    · exact hold
  refine ⟨?_, ?_, ?_, ?_⟩
  · rw [hids]
    exact h.distinct
  · intro r hr hrfin hrin
    obtain ⟨j, hj⟩ := List.mem_iff_getElem?.mp hr
    rw [hids]
    exact h.before r (List.mem_of_getElem? (hold hj hrfin).2) hrfin hrin
  · intro j k r r' hr hr' hrfin hrfin' heq
    exact h.holder (hold hr hrfin).2 (hold hr' hrfin').2 hrfin hrfin' heq
  · intro pre post r id hlog hcalledId
    rcases Lib.entry_of_append hlog with ⟨_, rfl, _⟩ | ⟨rest, rfl, hrest⟩
    · rw [hcalled] at hcalledId
      cases hcalledId
    · unfold Accounted
      rw [Log.results_append, hresult]
      rcases h.account hrest hcalledId with ⟨⟨r', hr', hrin, hrid⟩, hzero⟩ | ⟨hnone, hone⟩
      · obtain ⟨j, hj⟩ := List.mem_iff_getElem?.mp hr'
        by_cases hij : i = j
        · -- this was the open call: it has its result now
          subst hij
          obtain rfl : r' = f := Option.some.inj (hj.symm.trans hf)
          refine .inr ⟨?_, by simp [hzero, hrid]⟩
          intro q hq hqfin heq
          obtain ⟨k, hk⟩ := List.mem_iff_getElem?.mp hq
          obtain ⟨hki, hkold⟩ := hold hk hqfin
          exact hki (h.holder hkold hf hqfin hfin (heq.trans hrid.symm))
        · have hne : f.proc.toolCallId ≠ id := by
            intro heq
            exact hij (h.holder hf hj hfin (unfinished_of_inCall hrin) (heq.trans hrid.symm))
          refine .inl ⟨?_, by simp [hzero, hne]⟩
          exact ⟨r', List.mem_of_getElem? ((List.getElem?_set_ne hij).trans hj), hrin, hrid⟩
      · have hne := hnone f (List.mem_of_getElem? hf) hfin
        refine .inr ⟨?_, by simp [hone, hne]⟩
        intro q hq hqfin
        obtain ⟨k, hk⟩ := List.mem_iff_getElem?.mp hq
        exact hnone q (List.mem_of_getElem? (hold hk hqfin).2) hqfin

/-- A new call whose id nobody has opened or holds. -/
theorem LifeInv.begins (h : LifeInv flights log) (hgin : g.proc.pc.inCall = false)
    (hnew : g.proc.toolCallId ∉ log.calledIds)
    (hfree : ∀ r ∈ flights, r.proc.pc.finished = false → r.proc.toolCallId ≠ g.proc.toolCallId) :
    LifeInv (flights ++ [g]) log := by
  have hcases : ∀ {j : ℕ} {r : CallFlight W}, (flights ++ [g])[j]? = some r →
      flights[j]? = some r ∨ (j = flights.length ∧ r = g) := by
    intro j r hr
    rw [List.getElem?_append] at hr
    split_ifs at hr with hlt
    · exact .inl hr
    · obtain ⟨hlen, hmem⟩ := List.getElem?_eq_some_iff.mp hr
      simp only [List.length_singleton] at hlen
      exact .inr ⟨by omega, by rw [← hmem]; simp⟩
  refine ⟨h.distinct, ?_, ?_, ?_⟩
  · intro r hr hrfin hrin
    rcases List.mem_append.mp hr with hr | hr
    · exact h.before r hr hrfin hrin
    · rw [List.mem_singleton] at hr
      subst hr
      exact hnew
  · intro j k r r' hr hr' hrfin hrfin' heq
    rcases hcases hr with hold | ⟨rfl, rfl⟩
    · rcases hcases hr' with hold' | ⟨rfl, rfl⟩
      · exact h.holder hold hold' hrfin hrfin' heq
      · exact absurd heq (hfree r (List.mem_of_getElem? hold) hrfin)
    · rcases hcases hr' with hold' | ⟨rfl, rfl⟩
      · exact absurd heq.symm (hfree r' (List.mem_of_getElem? hold') hrfin')
      · rfl
  · intro pre post row id hlog hcalled
    rcases h.account hlog hcalled with ⟨⟨r, hr, hrin, hrid⟩, hzero⟩ | ⟨hnone, hone⟩
    · exact .inl ⟨⟨r, List.mem_append_left _ hr, hrin, hrid⟩, hzero⟩
    · refine .inr ⟨?_, hone⟩
      intro r hr hrfin
      rcases List.mem_append.mp hr with hr | hr
      · exact hnone r hr hrfin
      · rw [List.mem_singleton] at hr
        subst hr
        rintro rfl
        exact hnew (Log.mem_calledIds hlog hcalled)

end invariant

/-! ### Every call is answered once -/

/-- No Tool called event has this id, and no call under way but the `i`-th. -/
def Traffic.isFree {W : Type} (t : Traffic W) (i : ℕ) (id : String) : Bool :=
  !t.shared.log.calledIds.contains id &&
    t.flights.zipIdx.all fun g => g.2 = i || g.1.proc.pc.finished || g.1.proc.toolCallId ≠ id

theorem Traffic.isFree_iff {W : Type} {t : Traffic W} {i : ℕ} {id : String} :
    t.isFree i id = true ↔ id ∉ t.shared.log.calledIds ∧
      ∀ (j : ℕ) (g : CallFlight W), t.flights[j]? = some g → j ≠ i → g.proc.pc.finished = false →
        g.proc.toolCallId ≠ id := by
  unfold Traffic.isFree
  rw [Bool.and_eq_true, Bool.not_eq_true', List.contains_eq_mem, decide_eq_false_iff_not,
    List.all_eq_true]
  refine and_congr_right fun _ => ⟨?_, ?_⟩
  · intro h j g hg hji hfin
    have hgj := h (g, j) (List.mem_zipIdx_iff_getElem?.mpr hg)
    simpa [hji, hfin] using hgj
  · rintro h ⟨g, j⟩ hg
    have hj := List.mem_zipIdx_iff_getElem?.mp hg
    by_cases hji : j = i
    · simp [hji]
    · cases hfin : g.proc.pc.finished with
      | true => simp
      | false => simpa [hji] using h j g hj hji hfin

namespace ToolExecutor
variable {W : Type} [Py] (x : ToolExecutor W)

/-- A call gets an id that is free, when it is made and when it takes over the id of a confirmed
request, and its result is not lost. -/
def keepsAccounts (t : Traffic W) : Happening W → Bool
  | .call c => t.isFree t.flights.length c.toolCallId
  | .act i => match t.flights[i]? with
    | none => true
    | some f => !x.losesResult f.proc t.shared.log &&
        (takesOver f.proc t.shared.log).all (t.isFree i)
  | _ => true

theorem lifeInv_step {t u : Traffic W} {e : Happening W} (h : LifeInv t.flights t.shared.log)
    (hok : x.keepsAccounts t e = true) (hs : x.trafficStep t e = some u) :
    LifeInv u.flights u.shared.log := by
  cases e with
  | call c =>
      obtain rfl := Option.some.inj hs
      obtain ⟨hnew, hfree⟩ := Traffic.isFree_iff.mp hok
      refine h.begins (g := { proc := start c }) rfl hnew ?_
      intro r hr hrfin
      obtain ⟨j, hj⟩ := List.mem_iff_getElem?.mp hr
      exact hfree j r hj (List.getElem?_eq_some_iff.mp hj).1.ne hrfin
  | act i =>
      simp only [trafficStep] at hs
      split at hs
      · cases hs
      next f hf =>
        split_ifs at hs with hfin
        obtain rfl := Option.some.inj hs
        have hfin' : f.proc.pc.finished = false := by simpa using hfin
        simp only [keepsAccounts, hf, Bool.and_eq_true, Bool.not_eq_true'] at hok
        obtain ⟨hlose, htake⟩ := hok
        simp only
        cases x.lifeStep f.proc t.shared hfin' with
        | before hin hid hgin hk => exact (h.goes hf hfin' hid (hgin.trans hin.symm)).keeps hk
        | take hid hin hgin htid hlog =>
            rw [hid, Option.all_some] at htake
            obtain ⟨hnew, hfree⟩ := Traffic.isFree_iff.mp htake
            rw [hlog]
            exact h.takes hf hin (htid ▸ hnew) (htid ▸ hfree)
        | deny hin hid hgin hlog hcalled hresult =>
            rw [hlog]
            exact (h.goes hf hfin' hid (hgin.trans hin.symm)).stray hcalled hresult
              (h.before f (List.mem_of_getElem? hf) hfin' hin)
        | opens hin hid hgin hlog hcalled hresult =>
            rw [hlog]
            exact h.opens hf hfin' hin hid hgin hcalled hresult
        | inside hin hid hgin hk => exact (h.goes hf hfin' hid (hgin.trans hin.symm)).keeps hk
        | close hin hgfin hgin hlog hcalled hresult =>
            rw [hlog]
            exact h.closes hf hin hgfin hcalled hresult
        | lose hl =>
            rw [hl] at hlose
            cases hlose
  | answer cid confirmed operatorId =>
      obtain rfl := Option.some.inj hs
      refine h.keeps ?_
      simp only [Log.confirmRun, Log.appendKeyed]
      repeat' split
      all_goals first
        | exact .inl rfl
        | exact .inr ⟨_, rfl, rfl, rfl⟩
  | note payload =>
      simp only [trafficStep] at hs
      split_ifs at hs with hp
      obtain rfl := Option.some.inj hs
      refine h.keeps (.inr ⟨_, rfl, ?_, ?_⟩)
      all_goals cases payload <;> first | rfl | exact absurd (.inl rfl) hp
  | outside w =>
      obtain rfl := Option.some.inj hs
      exact h

/-- **Every call is answered exactly once**, in every run in which a call gets a free id and its
result is not lost. -/
theorem calls_are_answered {w : W} {t : Traffic W}
    (h : Lib.ReachesVia x.trafficStep (fun t e => x.keepsAccounts t e = true) (idle w) t) :
    CallsAnswered t := by
  have hinit : LifeInv (idle w).flights (idle w).shared.log := by
    refine ⟨List.nodup_nil, ?_, ?_, ?_⟩
    · intro f hf
      cases hf
    · intro i j f g hf
      simp [idle] at hf
    · intro pre post row id hlog
      simp [idle] at hlog
  have hinv : LifeInv t.flights t.shared.log :=
    h.invariant (I := fun t => LifeInv t.flights t.shared.log) hinit fun t u e _ hok ht hs =>
      x.lifeInv_step ht hok hs
  refine ⟨hinv.distinct, ?_⟩
  intro hall pre row post id hlog hid
  rcases hinv.account hlog hid with ⟨⟨f, hf, hin, _⟩, _⟩ | ⟨_, hone⟩
  · have hfin := unfinished_of_inCall hin
    rw [hall f hf] at hfin
    cases hfin
  · exact hone

end ToolExecutor

/-! ### A Skill whose inner call asks -/

/-- When every call has ended, a call that was opened has a result. -/
theorem CallsAnswered.results_pos {W : Type} {t : Traffic W} {id : String} (h : CallsAnswered t)
    (hall : ∀ f ∈ t.flights, f.proc.pc.finished = true) (hid : id ∈ t.shared.log.calledIds) :
    0 < t.shared.log.results id := by
  obtain ⟨row, hrow, hcalled⟩ := List.mem_filterMap.mp hid
  obtain ⟨pre, post, hlog⟩ := List.append_of_mem hrow
  have hone := h.answered hall pre row post id hlog hcalled
  have hle : Log.results post id ≤ t.shared.log.results id := by
    rw [hlog]
    unfold Log.results
    rw [List.countP_append, List.countP_cons]
    omega
  omega

section scenario
attribute [local instance] asciiPy

/-- A Skill that uploads a file; the inner call asks for the confirmation "c1". -/
def publish : Call ℕ :=
  { toolName := "publish"
    input := []
    td := { name := "publish", inputSchema := [], outputSchema := [], sideEffects := [.external]
            retryPolicy := { maxRetries := 0 } }
    toolFn := fun n => (.error (.confirmationNeeded "browser_file_upload" "c1"), n)
    toolCallId := "t0", confirmationId := "c0" }

/-- The request for confirmation passes through the Skill, whose call gets no result. -/
theorem call_of_skill_unanswered : ∃ t,
    Lib.Reaches remoteExecutor.trafficStep (ToolExecutor.idle 0) t ∧
      (∀ f ∈ t.flights, f.proc.pc.finished = true) ∧ ¬CallsAnswered t := by
  let moves : List (Happening ℕ) := [.call publish, .act 0, .act 0, .act 0,
    .call (upload "a.pdf" "t1" "c1"), .act 1, .act 1, .act 1, .act 1, .act 0, .act 0]
  obtain ⟨t, ht, hp⟩ := Lib.exists_reaches_of_run remoteExecutor.trafficStep moves
    (ToolExecutor.idle 0) (fun t => (t.flights.all fun f => f.proc.pc.finished) &&
      (t.shared.log.calledIds.contains "t0" && t.shared.log.results "t0" = 0)) (by decide +kernel)
  rw [Bool.and_eq_true, Bool.and_eq_true, List.all_eq_true, List.contains_eq_mem, decide_eq_true_eq,
    decide_eq_true_eq] at hp
  obtain ⟨hall, hcalled, hzero⟩ := hp
  refine ⟨t, ht, hall, fun h => ?_⟩
  have hpos := h.results_pos hall hcalled
  omega

/-- An upload that is confirmed and made again is one call with one result. -/
theorem confirmed_upload_answered : ∃ t,
    Lib.ReachesVia remoteExecutor.trafficStep
      (fun t e => remoteExecutor.keepsAccounts t e = true) (ToolExecutor.idle 0) t ∧
      ((∀ f ∈ t.flights, f.proc.pc.finished = true) ∧ t.shared.log.calledIds = ["t1"]) ∧
      CallsAnswered t := by
  obtain ⟨t, ht, hp⟩ := Lib.exists_reachesVia_of_run remoteExecutor.trafficStep
    remoteExecutor.keepsAccounts (uploads "a.pdf" "a.pdf" ++ List.replicate 3 (Happening.act 1))
    (ToolExecutor.idle 0) (fun t => (t.flights.all fun f => f.proc.pc.finished) &&
      t.shared.log.calledIds = ["t1"]) (by decide +kernel)
  rw [Bool.and_eq_true, List.all_eq_true, decide_eq_true_eq] at hp
  exact ⟨t, ht, hp, remoteExecutor.calls_are_answered ht⟩

end scenario
end JAgent
