import Mathlib.Data.List.Induction
import JAgent.Core.RunState
import JAgent.Lib.System

/-! # The status of a run

Only the events of type RUN move the status of the folded state, whatever else the fold does:
`foldLog_status` reads it off the payloads.  Everything the control operations of a run decide
(whether it may be paused, resumed, or has ended) depends on the log through the status alone. -/

namespace JAgent

/-- The status an event of type RUN sets. -/
def statusChange : Payload → Option RunStatus
  | .runStarted _ | .runResumed _ => some .running
  | .runPaused _ => some .paused
  | .runCompleted _ => some .completed
  | .runFailed _ => some .failed
  | _ => none

/-- The status after an event. -/
def statusAfter (st : RunStatus) (p : Payload) : RunStatus := (statusChange p).getD st

/-- The status of a log. -/
def statusOf (log : List Payload) : RunStatus := log.foldl statusAfter .running

@[simp] theorem statusOf_append (log : List Payload) (p : Payload) :
    statusOf (log ++ [p]) = statusAfter (statusOf log) p := by
  unfold statusOf
  rw [List.foldl_append]
  rfl

/-- The stored events of a run, numbered from `seq`. -/
def eventStream (runId : String) : ℕ → List Payload → List LogEvent
  | _, [] => []
  | seq, p :: ps => ⟨runId, seq, p⟩ :: eventStream runId (seq + 1) ps

/-- `fold_events` of the events of a run. -/
def foldLog [Py] (runId : String) (log : List Payload) : Except String RunState :=
  foldEvents (eventStream runId 1 log)

/-! ### The fold moves the status by RUN events only -/

section fold
variable {st st' : RunState}

variable [Py]

/-- The conversation after an event. -/
def conversationAfter (conversation : Option String) : Payload → Option String
  | .runStarted p => p.conversationId
  | _ => conversation

/-- **One event moves the status and the conversation as its payload says.** -/
theorem foldPayload_status {seq : ℕ} {p : Payload} (h : foldPayload st seq p = .ok st') :
    st'.status = statusAfter st.status p ∧
      st'.conversationId = conversationAfter st.conversationId p := by
  by_cases hp : p.ofPlan
  · obtain ⟨_, _, _, _, _, rfl, -⟩ := foldPayload_frame hp h
    cases p <;> first
      | exact ⟨rfl, rfl⟩
      | simp [Payload.ofPlan, Payload.eventType] at hp
  · cases p with
    | toolCompleted p =>
        simp only [foldPayload] at h
        split at h <;> cases h <;> exact ⟨rfl, rfl⟩
    | planCreated | planRevised | planCompleted | planFailed => exact absurd (.inl rfl) hp
    | stepStarted | stepCompleted | stepFailed | stepSkipped => exact absurd (.inr rfl) hp
    | _ =>
        cases h
        exact ⟨rfl, rfl⟩

theorem foldEvent_status {runId : String} {e : LogEvent} (h : foldEvent runId st e = .ok st') :
    st'.status = statusAfter st.status e.payload ∧
      st'.conversationId = conversationAfter st.conversationId e.payload := by
  rw [foldEvent] at h
  split_ifs at h
  have hstatus := foldPayload_status h
  exact hstatus

/-- The fold moves the status as the payloads say. -/
theorem foldFrom_status_of_events {runId : String} {es : List LogEvent}
    (h : foldFrom runId st es = .ok st') : st'.status = (es.map (·.payload)).foldl statusAfter st.status := by
  rw [List.foldl_map]
  exact foldFrom_part (fun _ _ _ hv => (foldEvent_status hv).1) h

omit [Py] in
theorem payloads_eventStream (runId : String) (seq : ℕ) (log : List Payload) :
    (eventStream runId seq log).map (·.payload) = log := by
  induction log generalizing seq with
  | nil => rfl
  | cons p log ih => rw [eventStream, List.map_cons, ih]

theorem foldFrom_status {runId : String} {log : List Payload} {seq : ℕ}
    (h : foldFrom runId st (eventStream runId seq log) = .ok st') :
    st'.status = log.foldl statusAfter st.status := by
  rw [foldFrom_status_of_events h, payloads_eventStream]

/-- **The status of the folded state is the status of the log.** -/
theorem foldLog_status {runId : String} {log : List Payload} (h : foldLog runId log = .ok st) :
    st.status = statusOf log := by
  cases log with
  | nil => cases h
  | cons p log =>
      have hfold : foldFrom runId { runId } (eventStream runId 1 (p :: log)) = .ok st := h
      exact foldFrom_status hfold

theorem foldFrom_conversation {runId : String} {log : List Payload} {seq : ℕ}
    (h : foldFrom runId st (eventStream runId seq log) = .ok st') :
    st'.conversationId = log.foldl conversationAfter st.conversationId := by
  have hpart : st'.conversationId =
      (eventStream runId seq log).foldl (fun c e => conversationAfter c e.payload) st.conversationId :=
    foldFrom_part (fun _ _ _ hv => (foldEvent_status hv).2) h
  have hmap : log.foldl conversationAfter st.conversationId =
      ((eventStream runId seq log).map (·.payload)).foldl conversationAfter st.conversationId := by
    rw [payloads_eventStream]
  rw [hpart, hmap, List.foldl_map]

omit [Py] in
theorem conversation_of_foldl {c : String} : ∀ {log : List Payload} {conversation : Option String},
    log.foldl conversationAfter conversation = some c →
      conversation = some c ∨ ∃ p, .runStarted p ∈ log ∧ p.conversationId = some c
  | [], _, h => .inl h
  | q :: log, conversation, h => by
      rw [List.foldl_cons] at h
      rcases conversation_of_foldl h with hstart | ⟨p, hp, hc⟩
      · cases q with
        | runStarted p => exact .inr ⟨p, List.mem_cons_self, hstart⟩
        | _ => exact .inl hstart
      · exact .inr ⟨p, List.mem_cons_of_mem _ hp, hc⟩

/-- The conversation of the folded state is one that a RunStarted names. -/
theorem runStarted_of_foldLog {runId c : String} {log : List Payload} (h : foldLog runId log = .ok st)
    (hc : st.conversationId = some c) : ∃ p, .runStarted p ∈ log ∧ p.conversationId = some c := by
  cases log with
  | nil => cases h
  | cons p log =>
      have hfold : foldFrom runId { runId } (eventStream runId 1 (p :: log)) = .ok st := h
      rw [foldFrom_conversation hfold] at hc
      rcases conversation_of_foldl hc with hnone | hsome
      · cases hnone
      · exact hsome

end fold

/-! ### Logs that end once -/

/-- Nothing after the end of the run moves its status. -/
def EndsLast (log : List Payload) : Prop :=
  ∀ pre p post, log = pre ++ p :: post → p.isTerminal = true → ∀ q ∈ post, statusChange q = none

section ending
variable {log : List Payload} {p : Payload}

theorem statusChange_of_isTerminal (h : p.isTerminal = true) :
    ∃ st, statusChange p = some st ∧ st.isTerminal = true := by
  cases p with
  | runCompleted p => exact ⟨_, rfl, rfl⟩
  | runFailed p => exact ⟨_, rfl, rfl⟩
  | _ => cases h

theorem isTerminal_of_statusChange {st : RunStatus} (h : statusChange p = some st)
    (ht : st.isTerminal = true) : p.isTerminal = true := by
  cases p <;> cases h <;> first | rfl | cases ht

theorem foldl_statusAfter_of_none : ∀ {log : List Payload} {st : RunStatus},
    (∀ q ∈ log, statusChange q = none) → log.foldl statusAfter st = st
  | [], _, _ => rfl
  | p :: log, st, h => by
      have hp : statusAfter st p = st := by
        unfold statusAfter
        rw [h p List.mem_cons_self]
        rfl
      rw [List.foldl_cons, hp]
      exact foldl_statusAfter_of_none fun q hq => h q (List.mem_cons_of_mem _ hq)

/-- A log that ended, and whose status nothing moved since, has ended. -/
theorem isTerminal_statusOf {pre post : List Payload} (hlog : log = pre ++ p :: post)
    (hp : p.isTerminal = true) (hpost : ∀ q ∈ post, statusChange q = none) :
    (statusOf log).isTerminal = true := by
  obtain ⟨st, hst, ht⟩ := statusChange_of_isTerminal hp
  have hafter : statusAfter (statusOf pre) p = st := by
    unfold statusAfter
    rw [hst]
    rfl
  have hstatus : statusOf log = st := by
    rw [hlog, ← hafter]
    unfold statusOf
    rw [List.foldl_append, List.foldl_cons]
    exact foldl_statusAfter_of_none hpost
  rw [hstatus]
  exact ht

/-- A log that has ended holds an event that ended it. -/
theorem exists_isTerminal (h : (statusOf log).isTerminal = true) :
    ∃ pre p post, log = pre ++ p :: post ∧ p.isTerminal = true := by
  induction log using List.reverseRecOn with
  | nil => cases h
  | append_singleton log p ih =>
      rw [statusOf_append] at h
      unfold statusAfter at h
      cases hp : statusChange p with
      | none =>
          rw [hp] at h
          obtain ⟨pre, q, post, rfl, hq⟩ := ih h
          exact ⟨pre, q, post ++ [p], by simp, hq⟩
      | some st =>
          rw [hp] at h
          exact ⟨log, p, [], rfl, isTerminal_of_statusChange hp h⟩

/-- **Appending keeps a log that ends once**, if the run has not ended or the event does not move
the status. -/
theorem EndsLast.append (h : EndsLast log)
    (hp : statusChange p = none ∨ (statusOf log).isTerminal = false) : EndsLast (log ++ [p]) := by
  intro pre q post heq hq r hr
  rcases Lib.entry_of_append heq with ⟨_, _, rfl⟩ | ⟨rest, rfl, hlog⟩
  · cases hr
  have hrest := h pre q rest hlog hq
  rw [List.mem_append, List.mem_singleton] at hr
  rcases hr with hr | rfl
  · exact hrest r hr
  · rcases hp with hp | hp
    · exact hp
    · rw [isTerminal_statusOf hlog hq hrest] at hp
      cases hp

/-- A log that ends once holds at most one end. -/
theorem EndsLast.length_le : ∀ {log : List Payload}, EndsLast log →
    (log.filter Payload.isTerminal).length ≤ 1
  | [], _ => Nat.zero_le 1
  | p :: log, h => by
      by_cases hp : p.isTerminal = true
      · have hrest : log.filter Payload.isTerminal = [] := by
          rw [List.filter_eq_nil_iff]
          intro q hq hterm
          obtain ⟨st, hst, _⟩ := statusChange_of_isTerminal hterm
          rw [h [] p log rfl hp q hq] at hst
          cases hst
        rw [List.filter_cons_of_pos hp, hrest]
        exact le_rfl
      · rw [List.filter_cons_of_neg hp]
        exact EndsLast.length_le fun pre q post heq => h (p :: pre) q post (by rw [heq]; rfl)

/-- The status of a log that ends once stays once it has ended. -/
theorem EndsLast.statusOf_take (h : EndsLast log) {n m : ℕ} (hnm : n ≤ m)
    (hterm : (statusOf (log.take n)).isTerminal = true) :
    statusOf (log.take m) = statusOf (log.take n) := by
  have hsplit : log.take m = log.take n ++ (log.take m).drop n := by
    have h1 := List.take_append_drop n (log.take m)
    rw [List.take_take, Nat.min_eq_left hnm] at h1
    exact h1.symm
  obtain ⟨pre, p, post, heq, hp⟩ := exists_isTerminal hterm
  have hquiet : ∀ q ∈ (log.take m).drop n, statusChange q = none := by
    intro q hq
    refine h pre p (post ++ (log.take m).drop n ++ log.drop m) ?_ hp q ?_
    · calc log = log.take m ++ log.drop m := (List.take_append_drop m log).symm
        _ = (log.take n ++ (log.take m).drop n) ++ log.drop m := by rw [← hsplit]
        _ = pre ++ p :: (post ++ (log.take m).drop n ++ log.drop m) := by rw [heq]; simp
    · simp [hq]
  rw [hsplit]
  unfold statusOf
  rw [List.foldl_append]
  exact foldl_statusAfter_of_none hquiet

end ending
end JAgent
