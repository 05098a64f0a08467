import JAgent.Core.Status
import JAgent.Tools.Approval

/-! # Confirm requests

`confirm_run` reads the events of the run, checks that the confirmation is still open and appends
the operator's answer under a key of its own.  Nothing is locked between the read and the append,
so any number of requests for one confirmation, with equal or opposite decisions, may pass the
checks together, next to calls of the Tool Layer that look for the answer.

What decides is the append: it looks for its key, and if it misses, the unique index of the event
table still admits one row per run, event type and key.  `one_decision_per_confirmation`: there is
one answer per confirmation, it stays, and every call acts on it. -/

namespace JAgent

/-! ### The endpoint -/

/-- The body of the request and the principal who sends it. -/
structure ConfirmRequest where
  confirmationId : String
  confirmed : Bool
  operatorId : String

/-- The responses of `confirm_run`. -/
inductive ConfirmReply where
  /-- 404 "Run not found". -/
  | notFound
  /-- "Confirmation already processed (idempotent)". -/
  | alreadyProcessed
  /-- 409 `run_not_waiting_confirmation`. -/
  | notWaiting (status : RunStatus)
  /-- 409 `confirmation_not_pending`. -/
  | notPending (confirmationId : String)
  | success
  | raised (error : String)

/-- The next await of a request. -/
inductive ConfirmPc where
  /-- `get_events`. -/
  | reading
  /-- `find_by_idempotency_key`, before the insert. -/
  | looking (stepId : Option String)
  /-- The insert, under the write lock. -/
  | inserting (stepId : Option String)
  /-- `find_by_idempotency_key`, after the unique index has refused the row. -/
  | refused (stepId : Option String)
  | replied (r : ConfirmReply)

namespace ConfirmRequest
variable (r : ConfirmRequest)

def received (stepId : Option String) : ConfirmationReceivedPayload :=
  { confirmationId := r.confirmationId, confirmed := r.confirmed, operatorId := r.operatorId, stepId }

/-- `f"confirm_{body.confirmation_id}"`. -/
def key : String := "confirm_" ++ r.confirmationId

/-- The checks on the events that were read; a request that passes them has the step id of the
request it answers. -/
def checks [Py] (runId : String) (log : Log) : Except ConfirmReply (Option String) :=
  if log.isEmpty then .error .notFound
  else if (log.findConfirmationById r.confirmationId).isSome then .error .alreadyProcessed
  else match foldLog runId (log.map Row.payload) with
    | .error e => .error (.raised e)
    | .ok st =>
      if st.status ≠ .paused then .error (.notWaiting st.status)
      else match log.findRequestById r.confirmationId,
          st.pendingConfirmations.find? fun c => c.confirmationId = r.confirmationId with
        | some requested, some _ => .ok requested.stepId
        | _, _ => .error (.notPending r.confirmationId)

/-- One await: the new control point and the log. -/
def advance [Py] (runId : String) (log : Log) : ConfirmPc → ConfirmPc × Log
  | .reading => match r.checks runId log with
    | .error reply => (.replied reply, log)
    | .ok stepId => (.looking stepId, log)
  | .looking stepId => match log.findByIdempotencyKey .confirmation r.key with
    | some _ => (.replied .success, log)
    | none => (.inserting stepId, log)
  | .inserting stepId => match log.findByIdempotencyKey .confirmation r.key with
    | some _ => (.refused stepId, log)
    | none => (.replied .success,
        log ++ [{ payload := .confirmationReceived (r.received stepId), idempotencyKey := some r.key }])
  | .refused _ => match log.findByIdempotencyKey .confirmation r.key with
    | some _ => (.replied .success, log)
    | none => (.replied (.raised ("Duplicate idempotency key '" ++ r.key ++ "' for run '" ++ runId ++ "'")),
        log)
  | .replied reply => (.replied reply, log)

end ConfirmRequest

def ConfirmPc.isReplied : ConfirmPc → Bool
  | .replied _ => true
  | _ => false

/-! ### Requests next to calls -/

/-- The calls of a run and the confirm requests for it.  `acted` records every call that found an
answer: for which confirmation, and whether it went on. -/
structure Desk (W : Type) where
  traffic : Traffic W
  requests : List (ConfirmRequest × ConfirmPc) := []
  acted : List (String × Bool) := []

/-- The log of the run. -/
def Desk.log {W : Type} (s : Desk W) : Log := s.traffic.shared.log

inductive DeskMove (W : Type) where
  /-- Something else than an answer happens. -/
  | traffic (e : Happening W)
  /-- A confirm request arrives. -/
  | confirm (r : ConfirmRequest)
  /-- A request takes its next step. -/
  | serve (i : ℕ)

/-- Answers come from requests only. -/
def Happening.isAnswer {W : Type} : Happening W → Bool
  | .answer .. => true
  | _ => false

/-- The decision a call acts on when it looks for the answer to its request. -/
def actsOn : CallPc → CallPc → Option (String × Bool)
  | .answering request, .calling => some (request.confirmationId, true)
  | .answering request, .denying => some (request.confirmationId, false)
  | _, _ => none

/-- The decision a step of a call acts on. -/
def Happening.actsOn {W : Type} (t u : Traffic W) : Happening W → Option (String × Bool)
  | .act i => match t.flights[i]?, u.flights[i]? with
    | some f, some g => JAgent.actsOn f.proc.pc g.proc.pc
    | _, _ => none
  | _ => none

namespace ToolExecutor
variable {W : Type} [Py] (x : ToolExecutor W) (runId : String)

/-- One step. -/
def deskStep (s : Desk W) : DeskMove W → Option (Desk W)
  | .traffic e =>
    if e.isAnswer then none
    else (x.trafficStep s.traffic e).map fun u =>
      { s with traffic := u, acted := s.acted ++ (e.actsOn s.traffic u).toList }
  | .confirm r => some { s with requests := s.requests ++ [(r, .reading)] }
  | .serve i => match s.requests[i]? with
    | none => none
    | some (r, pc) =>
      if pc.isReplied then none
      else
        let (pc', log') := r.advance runId s.log pc
        some { s with
          traffic := { s.traffic with shared := { s.traffic.shared with log := log' } }
          requests := s.requests.set i (r, pc') }

end ToolExecutor

/-! ### Rows under a key -/

namespace Log

/-- The answer to a confirmation that a row holds. -/
def answerTo (cid : String) (row : Row) : Option ConfirmationReceivedPayload :=
  match row.payload with
  | .confirmationReceived p => if p.confirmationId = cid then some p else none
  | _ => none

/-- The answers to a confirmation. -/
def answers (cid : String) (log : Log) : List ConfirmationReceivedPayload := log.filterMap (answerTo cid)

/-- Two rows the unique index admits together. -/
def Apart (a b : Row) : Prop :=
  a.idempotencyKey ≠ none → a.payload.eventType = b.payload.eventType → a.idempotencyKey ≠ b.idempotencyKey

/-- The unique index holds, and every answer stands under the key of its confirmation. -/
structure Keyed (log : Log) : Prop where
  apart : log.Pairwise Apart
  answers : ∀ row ∈ log, ∀ p, row.payload = .confirmationReceived p →
    row.idempotencyKey = some ("confirm_" ++ p.confirmationId)

/-- What happened to the log: nothing, or a row was appended that the unique index admits. -/
def Grows (log log' : Log) : Prop :=
  log' = log ∨ ∃ row, log' = log ++ [row] ∧ (∀ a ∈ log, Apart a row) ∧
    ∀ p, row.payload = .confirmationReceived p → row.idempotencyKey = some ("confirm_" ++ p.confirmationId)

variable {log log' : Log} {cid : String}

theorem findConfirmationById_eq (cid : String) (log : Log) :
    log.findConfirmationById cid = (log.answers cid).head? := by
  unfold answers
  rw [List.head?_filterMap]
  rfl

theorem keyed_nil : Keyed [] := ⟨List.Pairwise.nil, by simp⟩

theorem Keyed.grows (h : Keyed log) (hg : Grows log log') : Keyed log' := by
  rcases hg with rfl | ⟨row, rfl, hapart, hans⟩
  · exact h
  · refine ⟨?_, ?_⟩
    · rw [List.pairwise_append]
      refine ⟨h.apart, List.pairwise_singleton _ _, ?_⟩
      intro a ha b hb
      rw [List.mem_singleton.mp hb]
      exact hapart a ha
    · intro r hr
      rcases List.mem_append.mp hr with hr | hr
      · exact h.answers r hr
      · rw [List.mem_singleton.mp hr]
        exact hans

theorem answerTo_some {row : Row} {p : ConfirmationReceivedPayload} (h : answerTo cid row = some p) :
    row.payload = .confirmationReceived p ∧ p.confirmationId = cid := by
  simp only [answerTo] at h
  split at h
  next q hq =>
    split_ifs at h with hc
    obtain rfl : q = p := by simpa using h
    exact ⟨hq, hc⟩
  · cases h

/-- Two rows with answers to one confirmation have one key, which the index does not admit. -/
theorem Keyed.answers_le_one (h : Keyed log) (cid : String) : (log.answers cid).length ≤ 1 := by
  have hpair : (log.answers cid).Pairwise fun _ _ => False := by
    unfold Log.answers
    rw [List.pairwise_filterMap]
    refine h.apart.imp_of_mem ?_
    intro a b ha hb hapart p hp q hq
    obtain ⟨hpa, hpc⟩ := answerTo_some hp
    obtain ⟨hqb, hqc⟩ := answerTo_some hq
    have hka := h.answers a ha p hpa
    have hkb := h.answers b hb q hqb
    refine hapart ?_ ?_ ?_
    · rw [hka]
      exact Option.some_ne_none _
    · rw [hpa, hqb]
      rfl
    · rw [hka, hkb, hpc, hqc]
  match hl : log.answers cid with
  | [] => simp
  | [p] => simp
  | p :: q :: rest =>
      rw [hl] at hpair
      exact (List.rel_of_pairwise_cons hpair List.mem_cons_self).elim

theorem eq_singleton_of_head? {l : List ConfirmationReceivedPayload} {p : ConfirmationReceivedPayload}
    (hl : l.length ≤ 1) (hp : l.head? = some p) : l = [p] := by
  obtain ⟨rest, rfl⟩ := List.head?_eq_some_iff.mp hp
  rw [List.length_cons] at hl
  have hrest : rest = [] := List.length_eq_zero_iff.mp (by omega)
  rw [hrest]

/-- Answers stay where they are. -/
theorem Grows.answers_initial (h : Grows log log') (cid : String) : log.answers cid <+: log'.answers cid := by
  rcases h with rfl | ⟨row, rfl, -, -⟩
  · exact List.prefix_rfl
  · unfold Log.answers
    rw [List.filterMap_append]
    exact List.prefix_append _ _

theorem Grows.findConfirmationById (h : Grows log log') {p : ConfirmationReceivedPayload}
    (hp : log.findConfirmationById cid = some p) : log'.findConfirmationById cid = some p := by
  rw [findConfirmationById_eq] at hp ⊢
  obtain ⟨rest, hrest⟩ := h.answers_initial cid
  rw [← hrest, List.head?_append, hp]
  rfl

/-- An append under a key that is no answer of its own accord. -/
theorem grows_appendKeyed (payload : Payload) (key : Option String)
    (hp : ∀ p, payload = .confirmationReceived p → key = some ("confirm_" ++ p.confirmationId)) :
    Grows log (log.appendKeyed payload key) := by
  cases key with
  | none =>
      refine .inr ⟨{ payload := payload }, rfl, ?_, ?_⟩
      · intro a _ hk _ heq
        exact hk heq
      · exact hp
  | some k =>
      simp only [appendKeyed]
      split
      · exact .inl rfl
      next hmiss =>
        refine .inr ⟨{ payload := payload, idempotencyKey := some k }, rfl, ?_, hp⟩
        intro a ha _ htype hkey
        have hfound := (findByIdempotencyKey_ne_none_iff (t := payload.eventType) (k := k)).mpr
          ⟨a, ha, htype, hkey⟩
        exact hfound hmiss

theorem grows_appendEvent (payload : Payload) (hp : payload.eventType ≠ .confirmation) :
    Grows log (log.appendEvent payload) := by
  refine grows_appendKeyed payload none ?_
  rintro p rfl
  exact absurd rfl hp

end Log

/-! ### Steps -/

theorem ConfirmRequest.advance_grows [Py] (r : ConfirmRequest) (runId : String) (log : Log)
    (pc : ConfirmPc) : log.Grows (r.advance runId log pc).2 := by
  cases pc with
  | inserting stepId =>
      have happend := @Log.grows_appendKeyed log (.confirmationReceived (r.received stepId))
        (some r.key) (by rintro p ⟨⟩; rfl)
      simp only [advance]
      split
      · exact .inl rfl
      next hmiss =>
        simp only [Log.appendKeyed] at happend
        rw [show Payload.eventType (.confirmationReceived (r.received stepId)) = .confirmation from rfl,
          hmiss] at happend
        exact happend
  | _ =>
      simp only [advance]
      try split
      all_goals exact .inl rfl

namespace ToolExecutor
variable {W : Type} [Py] (x : ToolExecutor W) {runId : String}

theorem stepCall_grows (p : Proc W) (s : Shared W) : s.log.Grows (x.stepCall p s).2.log := by
  rcases x.stepCall_log p s with heq | ⟨payload, htool, heq⟩ | ⟨_, heq⟩ | ⟨_, persisted, _, _, heq⟩
  · exact .inl heq
  · rw [heq]
    refine Log.grows_appendEvent payload ?_
    rw [htool]
    decide
  · rw [heq]
    exact Log.grows_appendKeyed _ _ (by rintro p ⟨⟩)
  · rw [heq]
    exact Log.grows_appendKeyed _ _ (by rintro p ⟨⟩)

theorem trafficStep_grows {t u : Traffic W} {e : Happening W} (hs : x.trafficStep t e = some u)
    (he : e.isAnswer = false) : t.shared.log.Grows u.shared.log := by
  cases e with
  | call c =>
      obtain rfl := Option.some.inj hs
      exact .inl rfl
  | act i =>
      simp only [trafficStep] at hs
      split at hs
      · cases hs
      · split_ifs at hs
        obtain rfl := Option.some.inj hs
        exact x.stepCall_grows _ _
  | answer cid b op => cases he
  | note payload =>
      simp only [trafficStep] at hs
      split_ifs at hs with htype
      obtain rfl := Option.some.inj hs
      exact Log.grows_appendEvent payload fun h => htype (.inr h)
  | outside w =>
      obtain rfl := Option.some.inj hs
      exact .inl rfl

/-- A call acts on what it finds. -/
theorem actsOn_stepCall (p : Proc W) (s : Shared W) {cid : String} {b : Bool}
    (h : actsOn p.pc (x.stepCall p s).1.pc = some (cid, b)) :
    ∃ answer, s.log.findConfirmationById cid = some answer ∧ answer.confirmed = b := by
  obtain ⟨c, tid, pc⟩ := p
  cases pc with
  | answering request =>
      simp only [stepCall, goto] at h
      split at h
      · cases h
      next answer hfound =>
        split_ifs at h with hb
        · obtain ⟨rfl, rfl⟩ : request.confirmationId = cid ∧ true = b := by simpa [actsOn] using h
          exact ⟨answer, hfound, hb⟩
        · obtain ⟨rfl, rfl⟩ : request.confirmationId = cid ∧ false = b := by simpa [actsOn] using h
          exact ⟨answer, hfound, by simpa using hb⟩
  | _ => cases h

/-- What a step of the desk does: the log grows, and a decision that is acted on is in the log. -/
theorem deskStep_spec {s u : Desk W} {m : DeskMove W} (hs : x.deskStep runId s m = some u) :
    s.log.Grows u.log ∧ ∀ {cid : String} {b : Bool}, (cid, b) ∈ u.acted → (cid, b) ∈ s.acted ∨
      ∃ answer, s.log.findConfirmationById cid = some answer ∧ answer.confirmed = b := by
  cases m with
  | confirm r =>
      obtain rfl := Option.some.inj hs
      exact ⟨.inl rfl, .inl⟩
  | serve i =>
      simp only [deskStep] at hs
      split at hs
      · cases hs
      next r pc hr =>
        split_ifs at hs
        obtain rfl := Option.some.inj hs
        exact ⟨r.advance_grows runId s.log pc, .inl⟩
  | traffic e =>
      simp only [deskStep] at hs
      split_ifs at hs with he
      obtain ⟨t, ht, rfl⟩ := Option.map_eq_some_iff.mp hs
      refine ⟨x.trafficStep_grows ht (by simpa using he), ?_⟩
      intro cid b hmem
      rcases List.mem_append.mp hmem with hold | hnew
      · exact .inl hold
      · refine .inr ?_
        rw [Option.mem_toList] at hnew
        cases e with
        | act i =>
            simp only [Happening.actsOn] at hnew
            split at hnew
            next f g hf hg =>
              have hlt := (List.getElem?_eq_some_iff.mp hf).1
              simp only [trafficStep, hf] at ht
              split_ifs at ht
              obtain rfl := Option.some.inj ht
              rw [List.getElem?_set_self hlt] at hg
              obtain rfl := Option.some.inj hg
              exact x.actsOn_stepCall _ _ hnew
            · cases hnew
        | _ => cases hnew

/-! ### One decision -/

/-- The rows are keyed, and every decision that was acted on is the answer the log gives. -/
structure DeskInv (s : Desk W) : Prop where
  keyed : s.log.Keyed
  acted : ∀ {cid : String} {b : Bool}, (cid, b) ∈ s.acted →
    ∃ answer, s.log.findConfirmationById cid = some answer ∧ answer.confirmed = b

theorem DeskInv.step {s u : Desk W} {m : DeskMove W} (h : DeskInv s)
    (hs : x.deskStep runId s m = some u) : DeskInv u := by
  obtain ⟨hgrows, hacted⟩ := x.deskStep_spec hs
  refine ⟨h.keyed.grows hgrows, ?_⟩
  intro cid b hmem
  have hfound : ∃ answer, s.log.findConfirmationById cid = some answer ∧ answer.confirmed = b := by
    rcases hacted hmem with hold | hnew
    · exact h.acted hold
    · exact hnew
  obtain ⟨answer, hanswer, hb⟩ := hfound
  exact ⟨answer, hgrows.findConfirmationById hanswer, hb⟩

/-- A run that has made no call and has received no request yet. -/
def openDesk (w : W) : Desk W := { traffic := idle w }

/-- Answers stay in every later state. -/
theorem answers_initial_of_reaches {s u : Desk W} (h : Lib.Reaches (x.deskStep runId) s u)
    (cid : String) : s.log.answers cid <+: u.log.answers cid := by
  induction h with
  | refl => exact List.prefix_rfl
  | tail _ hs ih => exact ih.trans ((x.deskStep_spec hs).1.answers_initial cid)

theorem DeskInv.reaches {s u : Desk W} (h : DeskInv s) (hr : Lib.Reaches (x.deskStep runId) s u) :
    DeskInv u :=
  hr.invariant h fun _ _ _ _ hi hs => hi.step x hs

omit [Py] in
theorem DeskInv.only_answer {s : Desk W} (h : DeskInv s) {cid : String} {b : Bool}
    (hb : (cid, b) ∈ s.acted) : ∃ answer, s.log.answers cid = [answer] ∧ answer.confirmed = b := by
  obtain ⟨answer, hanswer, hconfirmed⟩ := h.acted hb
  refine ⟨answer, ?_, hconfirmed⟩
  rw [Log.findConfirmationById_eq] at hanswer
  exact Log.eq_singleton_of_head? (h.keyed.answers_le_one cid) hanswer

/-- **One operator decision per confirmation.**  There is at most one answer to a confirmation;
every call that looked for it acted on that answer; and in every later state it is still the only
one and still the one that is acted on. -/
theorem one_decision_per_confirmation {w : W} {s : Desk W}
    (h : Lib.Reaches (x.deskStep runId) (openDesk w) s) (cid : String) :
    (s.log.answers cid).length ≤ 1 ∧
    (∀ b, (cid, b) ∈ s.acted → ∃ answer, s.log.answers cid = [answer] ∧ answer.confirmed = b) ∧
    ∀ u, Lib.Reaches (x.deskStep runId) s u → ∀ answer, s.log.answers cid = [answer] →
      u.log.answers cid = [answer] ∧ ∀ b, (cid, b) ∈ u.acted → b = answer.confirmed := by
  have hstart : DeskInv (openDesk w) := ⟨Log.keyed_nil, by simp [openDesk]⟩
  have hs : DeskInv s := hstart.reaches x h
  refine ⟨hs.keyed.answers_le_one cid, fun b hb => hs.only_answer hb, ?_⟩
  intro u hu answer hanswer
  have hu' : DeskInv u := hs.reaches x hu
  have hlater : u.log.answers cid = [answer] := by
    obtain ⟨rest, hrest⟩ := x.answers_initial_of_reaches hu cid
    refine Log.eq_singleton_of_head? (hu'.keyed.answers_le_one cid) ?_
    rw [← hrest, hanswer]
    rfl
  refine ⟨hlater, fun b hb => ?_⟩
  obtain ⟨answer', hanswer', hconfirmed⟩ := hu'.only_answer hb
  rw [hlater] at hanswer'
  obtain rfl : answer = answer' := List.singleton_injective hanswer'
  exact hconfirmed.symm

end ToolExecutor

/-! ### Opposite answers -/

section scenario
attribute [local instance] asciiPy

/-- A request with a decision. -/
def decides (confirmed : Bool) : ConfirmRequest := { confirmationId := "c1", confirmed, operatorId := "op" }

/-- Two requests with opposite decisions pass the checks together; the denial comes first.  Then the
upload is tried again, twice. -/
def oppositeAnswers : List (DeskMove ℕ) :=
  [DeskMove.traffic (.note (.runStarted { intent := "upload" })),
    DeskMove.traffic (.call (upload "a.pdf" "t1" "c1"))] ++
  List.replicate 4 (DeskMove.traffic (.act 0)) ++
  [DeskMove.traffic (.note (.runPaused "waiting_confirmation")), .confirm (decides true),
    .confirm (decides false), .serve 0, .serve 1, .serve 0, .serve 1, .serve 1, .serve 0, .serve 0] ++
  DeskMove.traffic (.call (upload "a.pdf" "t2" "c2")) :: List.replicate 4 (DeskMove.traffic (.act 1)) ++
  DeskMove.traffic (.call (upload "a.pdf" "t3" "c3")) :: List.replicate 4 (DeskMove.traffic (.act 2))

/-- The index refuses the approval, which is answered as a success; both retries act on the denial. -/
theorem opposite_answers_one_decision : ∃ s,
    Lib.Reaches (remoteExecutor.deskStep "r") (ToolExecutor.openDesk 0) s ∧
      s.acted = [("c1", false), ("c1", false)] ∧
      ∃ answer, s.log.answers "c1" = [answer] ∧ answer.confirmed = false ∧
        ∀ u, Lib.Reaches (remoteExecutor.deskStep "r") s u →
          u.log.answers "c1" = [answer] ∧ ∀ b, ("c1", b) ∈ u.acted → b = answer.confirmed := by
  obtain ⟨s, hs, hacted⟩ := Lib.exists_reaches_of_run (remoteExecutor.deskStep "r") oppositeAnswers
    (ToolExecutor.openDesk 0) (fun s => s.acted = [("c1", false), ("c1", false)]) (by decide +kernel)
  have hacted' : s.acted = [("c1", false), ("c1", false)] := of_decide_eq_true hacted
  obtain ⟨_, hone, hlater⟩ := remoteExecutor.one_decision_per_confirmation hs "c1"
  obtain ⟨answer, hanswer, hconfirmed⟩ := hone false (by rw [hacted']; exact List.mem_cons_self)
  exact ⟨s, hs, hacted', answer, hanswer, hconfirmed, fun u hu => hlater u hu answer hanswer⟩

end scenario

end JAgent
