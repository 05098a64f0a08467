import JAgent.Core.Status
import JAgent.Lib.System

/-! # Pausing, resuming and confirming a run

The scheduler loop of a run next to the operator's requests, each as the actions between its
awaits.  The loop stops in two places: `_handle_pause`, when it has read that the run is paused,
and `_wait_for_resume`, after it has paused the run itself to have steps confirmed.  Both clear an
`asyncio.Event` and wait for it.  `resume` writes RunResumed and then sets the events; `confirm_run`
records the operator's answer and calls `resume`.

Writing RunPaused, clearing the event, writing RunResumed and setting the event are separate
actions.  A RunResumed that lands before the event is cleared wakes nobody
(`resumed_in_the_gap_is_lost`); elsewhere a blocked loop is always about to be woken once the run
has been resumed (`resumed_loop_is_woken`). -/

namespace JAgent

/-! ### The loop and the requests -/

/-- Where the loop is.  `todo` lists the steps to confirm with their confirmations, the current one
first; `retries` counts the repetitions of the current one. -/
inductive LoopPc where
  | working
  /-- PAUSED was read; `_handle_pause` refreshes the state for its log line. -/
  | detected
  /-- Waiting in `_handle_pause`. -/
  | pausing
  /-- The head of the confirmation loop. -/
  | choosing (todo : List (String × String)) (retries : ℕ)
  /-- About to append RunPaused. -/
  | announcing (todo : List (String × String)) (retries : ℕ)
  /-- RunPaused is in the log; the append is still returning. -/
  | announced (todo : List (String × String)) (retries : ℕ)
  /-- Waiting in `_wait_for_resume`. -/
  | confirming (todo : List (String × String)) (retries : ℕ)
  /-- Woken; refreshes the state. -/
  | refreshing (todo : List (String × String)) (retries : ℕ)
  /-- The step is retried. -/
  | retrying (todo : List (String × String)) (retries : ℕ)
  /-- About to fail the run. -/
  | failing (error : String)
  | ended

/-- The operator's requests. -/
inductive RequestKind where
  | pause
  | resume
  | confirm (confirmationId : String) (confirmed : Bool) (operatorId : String)

/-- The next action of a request. -/
inductive RequestPc where
  /-- `confirm_run` reads the log. -/
  | reading
  /-- `confirm_run` appends the answer. -/
  | recording (stepId : Option String)
  /-- Take `_resume_lock`. -/
  | entering
  /-- Read the log and decide. -/
  | checking
  /-- Append the RUN event. -/
  | appending
  /-- RunResumed is in the log; set the events. -/
  | signalling
  | ended

structure Request where
  kind : RequestKind
  pc : RequestPc

/-- The loop of a run and the requests on it. -/
structure Control where
  log : List Payload
  holder : Option ℕ := none
  pauseEvent : Option Bool := none
  confirmEvent : Option Bool := none
  loop : LoopPc := .working
  requests : List Request := []

/-- What happens next. -/
inductive ControlMove where
  /-- The loop reads the log between two steps. -/
  | observe
  /-- A layer is suspended: steps have to be confirmed. -/
  | suspend (todo : List (String × String))
  /-- The loop completes the run. -/
  | finish (p : RunCompletedPayload)
  /-- The loop takes its next action. -/
  | tick
  /-- The retry returns; `again` says that it asks for confirmation once more. -/
  | retried (again : Bool)
  /-- The wait of the loop times out. -/
  | timeout
  | request (kind : RequestKind)
  | act (i : ℕ)
  /-- Another component appends an event. -/
  | note (p : Payload)

/-- The answer to a confirmation is in the log. -/
def answered? (log : List Payload) (confirmationId : String) : Bool :=
  log.any fun p => match p with
    | .confirmationReceived p => p.confirmationId = confirmationId
    | _ => false

/-- The request for a confirmation. -/
def requested? (log : List Payload) (confirmationId : String) : Option ConfirmationRequestedPayload :=
  log.findSome? fun p => match p with
    | .confirmationRequested p => if p.confirmationId = confirmationId then some p else none
    | _ => none

/-- Events that neither move the status nor answer a confirmation. -/
def isNeutral : Payload → Bool
  | .confirmationReceived _ => false
  | p => (statusChange p).isNone

namespace Control
variable (s : Control)

def emit (p : Payload) : Control := { s with log := s.log ++ [p] }

/-- The loop ends and its events are removed. -/
def stop : Control := { s with loop := .ended, pauseEvent := none, confirmEvent := none }

/-- A request goes on; the lock is released when it ends. -/
def goto (i : ℕ) (kind : RequestKind) (pc : RequestPc) : Control :=
  { s with requests := s.requests.set i ⟨kind, pc⟩ }

/-- A request under the lock ends. -/
def release (i : ℕ) (kind : RequestKind) : Control :=
  { s.goto i kind .ended with holder := none }

/-- `event.set()` on the events that exist. -/
def signal : Control :=
  { s with pauseEvent := s.pauseEvent.map fun _ => true
           confirmEvent := s.confirmEvent.map fun _ => true }

/-- `pause` checks for RUNNING, `resume` for PAUSED. -/
def mayProceed : RequestKind → Bool
  | .pause => statusOf s.log = .running
  | _ => statusOf s.log = .paused

/-- The RUN event a request writes. -/
def runEvent : RequestKind → Payload
  | .pause => .runPaused "user_requested"
  | _ => .runResumed s.log.length

/-- The next action of a request. -/
def act (i : ℕ) (kind : RequestKind) : RequestPc → Option Control
  | .reading => match kind with
    | .confirm cid _ _ =>
      if answered? s.log cid || statusOf s.log ≠ .paused then some (s.goto i kind .ended)
      else match requested? s.log cid with
        | none => some (s.goto i kind .ended)
        | some request => some (s.goto i kind (.recording request.stepId))
    | _ => none
  | .recording stepId => match kind with
    | .confirm cid confirmed operatorId =>
      -- the append is keyed by the confirmation: a second answer leaves the log as it is
      if answered? s.log cid then some (s.goto i kind .entering)
      else some ((s.emit (.confirmationReceived
        { confirmationId := cid, confirmed, operatorId, stepId })).goto i kind .entering)
    | _ => none
  | .entering =>
    if s.holder.isNone then some { s.goto i kind .checking with holder := some i } else none
  | .checking => if s.mayProceed kind then some (s.goto i kind .appending) else some (s.release i kind)
  | .appending => match kind with
    | .pause => some ((s.emit (s.runEvent kind)).release i kind)
    | _ => some ((s.emit (s.runEvent kind)).goto i kind .signalling)
  | .signalling => some (s.signal.release i kind)
  | .ended => none

/-- The next action of the loop. -/
def tick (maxConfirmRetries : ℕ) : Option Control :=
  match s.loop with
  | .working | .retrying .. | .ended => none
  | .detected => some { s with loop := .pausing, pauseEvent := some false }
  | .pausing =>
    if s.pauseEvent = some true then some { s with loop := .working, pauseEvent := some false } else none
  | .choosing [] _ => some { s with loop := .working }
  | .choosing ((sid, cid) :: todo) retries =>
    if maxConfirmRetries ≤ retries then
      some { s with loop := .failing ("Max confirmation retries (" ++ toString maxConfirmRetries ++
        ") exceeded for step " ++ sid) }
    else if (statusOf s.log).isTerminal then
      some { s.emit (.diagnostic "late_event_rejected") with
        loop := .announced ((sid, cid) :: todo) retries }
    else some { s with loop := .announcing ((sid, cid) :: todo) retries }
  | .announcing todo retries =>
    some { s.emit (.runPaused "waiting_confirmation") with loop := .announced todo retries }
  | .announced todo retries =>
    some { s with loop := .confirming todo retries, confirmEvent := some false }
  | .confirming todo retries =>
    if s.confirmEvent = some true then
      some { s with loop := .refreshing todo retries, confirmEvent := some false }
    else none
  | .refreshing todo retries =>
    if (statusOf s.log).isTerminal then some s.stop
    else some { s with loop := .retrying todo retries }
  | .failing error =>
    if s.holder.isNone then
      some (s.emit (.runFailed { finalError := error, eventCount := s.log.length })).stop
    else none

end Control

/-- One move. -/
def controlStep (maxConfirmRetries : ℕ) (s : Control) : ControlMove → Option Control
  | .observe => match s.loop with
    | .working => if statusOf s.log = .paused then some { s with loop := .detected } else none
    | _ => none
  | .suspend todo => match s.loop with
    | .working => some { s with loop := .choosing todo 0 }
    | _ => none
  | .finish p => match s.loop with
    | .working => if s.holder.isNone then some (s.emit (.runCompleted p)).stop else none
    | _ => none
  | .tick => s.tick maxConfirmRetries
  | .retried again => match s.loop with
    | .retrying todo retries =>
      if again then some { s with loop := .choosing todo (retries + 1) }
      else some { s with loop := .choosing todo.tail 0 }
    | _ => none
  | .timeout => match s.loop with
    | .pausing => some { s with loop := .working, pauseEvent := some false }
    | .confirming _ _ =>
      some { s with loop := .failing "Confirmation timed out", confirmEvent := some false }
    | _ => none
  | .request kind => some { s with requests := s.requests ++ [⟨kind, match kind with
      | .confirm .. => .reading
      | _ => .entering⟩] }
  | .act i => match s.requests[i]? with
    | some ⟨kind, pc⟩ => s.act i kind pc
    | none => none
  | .note p => if isNeutral p then some (s.emit p) else none

/-- A run that has just been started. -/
def Control.start (p : RunStartedPayload) : Control := { log := [.runStarted p] }

/-! ### What a request can do -/

/-- Everything an action of a request can do. -/
inductive Acted (s : Control) (i : ℕ) : RequestKind → RequestPc → Control → Prop
  | refuse {kind : RequestKind} : Acted s i kind .reading (s.goto i kind .ended)
  | accept {cid operatorId : String} {confirmed : Bool} {stepId : Option String} :
      answered? s.log cid = false → statusOf s.log = .paused →
      Acted s i (.confirm cid confirmed operatorId) .reading
        (s.goto i (.confirm cid confirmed operatorId) (.recording stepId))
  | skip {cid operatorId : String} {confirmed : Bool} {stepId : Option String} :
      answered? s.log cid = true →
      Acted s i (.confirm cid confirmed operatorId) (.recording stepId)
        (s.goto i (.confirm cid confirmed operatorId) .entering)
  | record {cid operatorId : String} {confirmed : Bool} {stepId : Option String} :
      answered? s.log cid = false →
      Acted s i (.confirm cid confirmed operatorId) (.recording stepId)
        ((s.emit (.confirmationReceived { confirmationId := cid, confirmed, operatorId, stepId })).goto i
          (.confirm cid confirmed operatorId) .entering)
  | enter {kind : RequestKind} : s.holder = none →
      Acted s i kind .entering { s.goto i kind .checking with holder := some i }
  | proceed {kind : RequestKind} : s.mayProceed kind = true →
      Acted s i kind .checking (s.goto i kind .appending)
  | reject {kind : RequestKind} : s.mayProceed kind = false →
      Acted s i kind .checking (s.release i kind)
  | pause : Acted s i .pause .appending ((s.emit (.runPaused "user_requested")).release i .pause)
  | resume {kind : RequestKind} {seq : ℕ} : kind ≠ .pause →
      Acted s i kind .appending ((s.emit (.runResumed seq)).goto i kind .signalling)
  | signal {kind : RequestKind} : Acted s i kind .signalling (s.signal.release i kind)

section requests
variable {s t : Control} {i : ℕ} {kind : RequestKind} {pc : RequestPc}

/-- **An action of a request is one of `Acted`.** -/
theorem acted_of_act (h : s.act i kind pc = some t) : Acted s i kind pc t := by
  cases pc with
  | reading =>
      cases kind with
      | confirm cid confirmed operatorId =>
          simp only [Control.act] at h
          split_ifs at h with hc
          · cases h
            exact .refuse
          · simp only [Bool.or_eq_true, decide_eq_true_eq, not_or, Bool.not_eq_true, not_not] at hc
            split at h
            next =>
              cases h
              exact .refuse
            next request _ =>
              cases h
              exact .accept hc.1 hc.2
      | pause => cases h
      | resume => cases h
  | recording stepId =>
      cases kind with
      | confirm cid confirmed operatorId =>
          simp only [Control.act] at h
          split_ifs at h with hc
          · cases h
            exact .skip hc
          · cases h
            exact .record (by simpa using hc)
      | pause => cases h
      | resume => cases h
  | entering =>
      simp only [Control.act] at h
      split_ifs at h with hc
      cases h
      exact .enter (by simpa using hc)
  | checking =>
      simp only [Control.act] at h
      split_ifs at h with hc
      · cases h
        exact .proceed hc
      · cases h
        exact .reject (by simpa using hc)
  | appending =>
      cases kind with
      | pause =>
          cases h
          exact .pause
      | resume =>
          cases h
          exact .resume (by simp)
      | confirm cid confirmed operatorId =>
          cases h
          exact .resume (by simp)
  | signalling =>
      cases h
      exact .signal
  | ended => cases h

end requests

/-! ### The run after a resume -/

/-- A RunResumed event stands after the last RunPaused event. -/
def resumedSincePause (log : List Payload) : Bool :=
  log.foldl (fun b p => match p with
    | .runPaused _ => false
    | .runResumed _ => true
    | _ => b) false

theorem resumedSincePause_append (log : List Payload) (p : Payload) :
    resumedSincePause (log ++ [p]) = match p with
      | .runPaused _ => false
      | .runResumed _ => true
      | _ => resumedSincePause log := by
  unfold resumedSincePause
  rw [List.foldl_append]
  rfl

/-- A paused run was not resumed since. -/
theorem not_resumed_of_paused {log : List Payload} (h : statusOf log = .paused) :
    resumedSincePause log = false := by
  induction log using List.reverseRecOn with
  | nil => rfl
  | append_singleton log p ih =>
      rw [statusOf_append] at h
      rw [resumedSincePause_append]
      cases p <;> first | rfl | exact ih h | cases h

/-- An event that does not move the status is neither a pause nor a resume. -/
theorem resumedSincePause_quiet {log : List Payload} {p : Payload} (h : statusChange p = none) :
    resumedSincePause (log ++ [p]) = resumedSincePause log := by
  rw [resumedSincePause_append]
  cases p <;> first | rfl | cases h

/-- Between finding the pause and clearing the event. -/
def LoopPc.inGap : LoopPc → Bool
  | .detected | .announced _ _ => true
  | _ => false

def LoopPc.isEnded : LoopPc → Bool
  | .ended => true
  | _ => false

/-- The loop waits and its event is not set. -/
def Control.blocked (s : Control) : Bool :=
  match s.loop with
  | .pausing => s.pauseEvent = some false
  | .confirming _ _ => s.confirmEvent = some false
  | _ => false

/-- A request has written RunResumed and is about to set the events. -/
def Control.signalling (s : Control) : Prop :=
  ∃ (i : ℕ) (kind : RequestKind), s.requests[i]? = some ⟨kind, .signalling⟩

/-- No RunResumed is written in the gap. -/
def resumesOutsideGap (s : Control) : ControlMove → Bool
  | .act i => match s.requests[i]? with
    | some ⟨.pause, _⟩ => true
    | some ⟨_, .appending⟩ => !s.loop.inGap
    | _ => true
  | _ => true

/-- The invariant of the loop and the requests. -/
structure WakeInv (s : Control) : Prop where
  alive : s.loop.isEnded = false → (statusOf s.log).isTerminal = false
  gap : s.loop.inGap = true → resumedSincePause s.log = false
  woken : s.blocked = true → resumedSincePause s.log = true → s.signalling

section wake
variable {s t : Control} {maxConfirmRetries : ℕ}

/-- Where the loop neither waits nor is about to. -/
theorem WakeInv.of_free (halive : s.loop.isEnded = false → (statusOf s.log).isTerminal = false)
    (hgap : s.loop.inGap = false) (hblocked : s.blocked = false) : WakeInv s := by
  refine ⟨halive, fun h => ?_, fun h => ?_⟩
  · rw [hgap] at h
    cases h
  · rw [hblocked] at h
    cases h

/-- Where the run was not resumed since its last pause. -/
theorem WakeInv.of_paused (halive : (statusOf s.log).isTerminal = false)
    (h : resumedSincePause s.log = false) : WakeInv s := by
  refine ⟨fun _ => halive, fun _ => h, fun _ hr => ?_⟩
  rw [h] at hr
  cases hr

/-- **One action of the loop keeps the invariant.** -/
theorem WakeInv.tick (h : WakeInv s) (hs : s.tick maxConfirmRetries = some t) : WakeInv t := by
  unfold Control.tick at hs
  split at hs
  next => cases hs
  next => cases hs
  next => cases hs
  next hl =>
    cases hs
    exact .of_paused (h.alive (by rw [hl]; rfl)) (h.gap (by rw [hl]; rfl))
  next hl =>
    split_ifs at hs
    cases hs
    exact .of_free (fun _ => h.alive (by rw [hl]; rfl)) rfl rfl
  next hl =>
    cases hs
    exact .of_free (fun _ => h.alive (by rw [hl]; rfl)) rfl rfl
  next hl =>
    have halive := h.alive (by rw [hl]; rfl)
    split_ifs at hs with hmax hterm
    · cases hs
      exact .of_free (fun _ => halive) rfl rfl
    · rw [halive] at hterm
      cases hterm
    · cases hs
      exact .of_free (fun _ => halive) rfl rfl
  next hl =>
    cases hs
    refine .of_paused ?_ ?_
    · show (statusOf (s.log ++ _)).isTerminal = false
      rw [statusOf_append]
      rfl
    · show resumedSincePause (s.log ++ _) = false
      rw [resumedSincePause_append]
  next hl =>
    cases hs
    exact .of_paused (h.alive (by rw [hl]; rfl)) (h.gap (by rw [hl]; rfl))
  next hl =>
    split_ifs at hs
    cases hs
    exact .of_free (fun _ => h.alive (by rw [hl]; rfl)) rfl rfl
  next hl =>
    split_ifs at hs
    · cases hs
      exact .of_free (fun hend => by cases hend) rfl rfl
    · cases hs
      exact .of_free (fun _ => h.alive (by rw [hl]; rfl)) rfl rfl
  next =>
    split_ifs at hs
    cases hs
    exact .of_free (fun hend => by cases hend) rfl rfl

/-- An event is written that leaves the run open; a RunResumed comes from a request that will set
the events. -/
theorem WakeInv.write {p : Payload} (h : WakeInv s) (hloop : t.loop = s.loop)
    (hevents : t.pauseEvent = s.pauseEvent ∧ t.confirmEvent = s.confirmEvent)
    (hlog : t.log = s.log ++ [p]) (hp : p.isTerminal = false)
    (hresumed : resumedSincePause (s.log ++ [p]) = true →
      s.loop.inGap = false ∧ (t.signalling ∨ resumedSincePause s.log = true))
    (hsig : s.signalling → t.signalling) : WakeInv t := by
  have hblocked : t.blocked = s.blocked := by
    unfold Control.blocked
    rw [hloop, hevents.1, hevents.2]
  refine ⟨fun hend => ?_, fun hgap => ?_, fun hb hr => ?_⟩
  · rw [hloop] at hend
    rw [hlog, statusOf_append]
    unfold statusAfter
    cases hc : statusChange p with
    | none => exact h.alive hend
    | some st =>
        by_contra hterm
        rw [isTerminal_of_statusChange hc (by simpa using hterm)] at hp
        cases hp
  · rw [hloop] at hgap
    rw [hlog, Bool.eq_false_iff]
    intro hr
    rw [(hresumed hr).1] at hgap
    cases hgap
  · rw [hblocked] at hb
    rw [hlog] at hr
    rcases (hresumed hr).2 with hs | hs
    · exact hs
    · exact hsig (h.woken hb hs)

/-- A quiet event changes nothing for the loop. -/
theorem WakeInv.quiet {p : Payload} (h : WakeInv s) (hloop : t.loop = s.loop)
    (hevents : t.pauseEvent = s.pauseEvent ∧ t.confirmEvent = s.confirmEvent)
    (hlog : t.log = s.log ++ [p]) (hp : statusChange p = none)
    (hsig : s.signalling → t.signalling) : WakeInv t := by
  refine h.write hloop hevents hlog ?_ (fun hr => ?_) hsig
  · cases hterm : p.isTerminal with
    | false => rfl
    | true =>
        obtain ⟨st, hst, _⟩ := statusChange_of_isTerminal hterm
        rw [hp] at hst
        cases hst
  · rw [resumedSincePause_quiet hp] at hr
    refine ⟨?_, .inr hr⟩
    cases hgap : s.loop.inGap with
    | false => rfl
    | true =>
        rw [h.gap hgap] at hr
        cases hr

/-- A request that moves neither the log nor the events. -/
theorem WakeInv.silent (h : WakeInv s) (hloop : t.loop = s.loop)
    (hevents : t.pauseEvent = s.pauseEvent ∧ t.confirmEvent = s.confirmEvent)
    (hlog : t.log = s.log) (hsig : s.signalling → t.signalling) : WakeInv t := by
  have hblocked : t.blocked = s.blocked := by
    unfold Control.blocked
    rw [hloop, hevents.1, hevents.2]
  refine ⟨fun hend => ?_, fun hgap => ?_, fun hb hr => ?_⟩
  · rw [hlog]
    exact h.alive (by rw [← hloop]; exact hend)
  · rw [hlog]
    exact h.gap (by rw [← hloop]; exact hgap)
  · rw [hblocked] at hb
    rw [hlog] at hr
    exact hsig (h.woken hb hr)

/-- Setting the events wakes the loop. -/
theorem not_blocked_signal (s : Control) : s.signal.blocked = false := by
  obtain ⟨log, holder, pauseEvent, confirmEvent, loop, requests⟩ := s
  unfold Control.blocked Control.signal
  cases loop <;> simp only
  case pausing => cases pauseEvent <;> simp
  case confirming => cases confirmEvent <;> simp

theorem WakeInv.signalled (h : WakeInv s) (hloop : t.loop = s.loop) (hlog : t.log = s.log)
    (hblocked : t.blocked = false) : WakeInv t := by
  refine ⟨fun hend => ?_, fun hgap => ?_, fun hb => ?_⟩
  · rw [hlog]
    exact h.alive (by rw [← hloop]; exact hend)
  · rw [hlog]
    exact h.gap (by rw [← hloop]; exact hgap)
  · rw [hblocked] at hb
    cases hb

variable {i : ℕ} {kind : RequestKind} {pc : RequestPc}

/-- A request that is not about to set the events goes on. -/
theorem signalling_set {pc' : RequestPc} (hi : s.requests[i]? = some ⟨kind, pc⟩) (hpc : pc ≠ .signalling)
    (ht : t.requests = s.requests.set i ⟨kind, pc'⟩) (h : s.signalling) : t.signalling := by
  obtain ⟨j, kind', hj⟩ := h
  have hne : i ≠ j := by
    rintro rfl
    rw [hi, Option.some.injEq, Request.mk.injEq] at hj
    exact hpc hj.2
  exact ⟨j, kind', by rw [ht, List.getElem?_set_ne hne, hj]⟩

theorem getElem?_set_of {l : List Request} {r r' : Request} (hi : l[i]? = some r) :
    (l.set i r')[i]? = some r' := by
  rw [List.getElem?_set_self', hi]
  rfl

/-- The request has just written RunResumed. -/
theorem signalling_self (hi : s.requests[i]? = some ⟨kind, pc⟩)
    (ht : t.requests = s.requests.set i ⟨kind, .signalling⟩) : t.signalling := by
  exact ⟨i, kind, by rw [ht]; exact getElem?_set_of hi⟩

/-- **One action of a request keeps the invariant**, if it writes no RunResumed in the gap. -/
theorem WakeInv.acted (h : WakeInv s) (hi : s.requests[i]? = some ⟨kind, pc⟩)
    (hok : resumesOutsideGap s (.act i) = true) (ha : Acted s i kind pc t) : WakeInv t := by
  cases ha with
  | refuse | accept _ _ | skip _ | enter _ | proceed _ | reject _ =>
      exact h.silent rfl ⟨rfl, rfl⟩ rfl (signalling_set hi (by simp) rfl)
  | record _ => exact h.quiet rfl ⟨rfl, rfl⟩ rfl rfl (signalling_set hi (by simp) rfl)
  | pause =>
      refine h.write rfl ⟨rfl, rfl⟩ rfl rfl (fun hr => ?_) (signalling_set hi (by simp) rfl)
      rw [resumedSincePause_append] at hr
      cases hr
  | resume hkind =>
      refine h.write rfl ⟨rfl, rfl⟩ rfl rfl (fun _ => ⟨?_, .inl (signalling_self hi rfl)⟩)
        (signalling_set hi (by simp) rfl)
      simp only [resumesOutsideGap, hi] at hok
      cases kind with
      | pause => exact absurd rfl hkind
      | resume => simpa using hok
      | confirm cid confirmed operatorId => simpa using hok
  | signal => exact h.signalled rfl rfl (not_blocked_signal s)

/-- **One move keeps the invariant**, if no RunResumed is written in the gap. -/
theorem WakeInv.step {m : ControlMove} (h : WakeInv s) (hok : resumesOutsideGap s m = true)
    (hs : controlStep maxConfirmRetries s m = some t) : WakeInv t := by
  cases m with
  | observe =>
      simp only [controlStep] at hs
      split at hs
      next hl =>
        split_ifs at hs with hp
        cases hs
        exact .of_paused (h.alive (by rw [hl]; rfl)) (not_resumed_of_paused hp)
      next => cases hs
  | suspend todo =>
      simp only [controlStep] at hs
      split at hs
      next hl =>
        cases hs
        exact .of_free (fun _ => h.alive (by rw [hl]; rfl)) rfl rfl
      next => cases hs
  | finish p =>
      simp only [controlStep] at hs
      split at hs
      next =>
        split_ifs at hs
        cases hs
        exact .of_free (fun hend => by cases hend) rfl rfl
      next => cases hs
  | tick => exact h.tick hs
  | retried again =>
      simp only [controlStep] at hs
      split at hs
      next hl =>
        split_ifs at hs <;> cases hs <;> exact .of_free (fun _ => h.alive (by rw [hl]; rfl)) rfl rfl
      next => cases hs
  | timeout =>
      simp only [controlStep] at hs
      split at hs
      next hl =>
        cases hs
        exact .of_free (fun _ => h.alive (by rw [hl]; rfl)) rfl rfl
      next hl =>
        cases hs
        exact .of_free (fun _ => h.alive (by rw [hl]; rfl)) rfl rfl
      next => cases hs
  | request kind =>
      cases hs
      refine h.silent rfl ⟨rfl, rfl⟩ rfl ?_
      rintro ⟨i, kind', hi⟩
      refine ⟨i, kind', ?_⟩
      rw [List.getElem?_append_left (List.getElem?_eq_some_iff.mp hi).1]
      exact hi
  | act i =>
      simp only [controlStep] at hs
      split at hs
      next kind pc hi => exact h.acted hi hok (acted_of_act hs)
      next => cases hs
  | note p =>
      simp only [controlStep] at hs
      split_ifs at hs with hp
      cases hs
      have hquiet : statusChange p = none := by
        cases p <;> simp_all [isNeutral]
      exact h.quiet rfl ⟨rfl, rfl⟩ rfl hquiet id

theorem WakeInv.start (p : RunStartedPayload) : WakeInv (.start p) :=
  .of_free (fun _ => rfl) rfl rfl

/-- **A blocked loop is about to be woken once the run has been resumed**, as long as no RunResumed is
written between the loop's finding of a pause and its clearing of the event.  In every such
interleaving, a log with a RunResumed after its last RunPaused leaves the loop blocked only while a
request that has written a RunResumed is about to set the events. -/
theorem resumed_loop_is_woken (p : RunStartedPayload)
    (h : Lib.ReachesVia (controlStep maxConfirmRetries) (fun s m => resumesOutsideGap s m = true)
      (.start p) s) (hb : s.blocked = true) (hr : resumedSincePause s.log = true) : s.signalling := by
  have hinv : WakeInv s := h.invariant (.start p) fun _ _ _ _ hok hi hs => hi.step hok hs
  exact hinv.woken hb hr

end wake

/-! ### Two orders of a pause and a resume -/

section scenario

/-- The operator pauses the run and the loop finds the pause. -/
def pauseFound : List ControlMove :=
  [.request .pause, .act 0, .act 0, .act 0, .observe, .request .resume]

/-- The loop waits before the resume: it is blocked until the event is set. -/
def resumeWhileWaiting : List ControlMove := pauseFound ++ [ControlMove.tick, .act 1, .act 1, .act 1]

/-- The whole resume lands before the event is cleared. -/
def resumeInGap : List ControlMove := pauseFound ++ [ControlMove.act 1, .act 1, .act 1, .act 1, .tick]

/-- A loop that waits is blocked between RunResumed and the event; a RunResumed that lands before the
event is cleared leaves it blocked with no request under way. -/
theorem resumed_in_the_gap_is_lost :
    (∃ s, Lib.Reaches (controlStep 3) (.start { intent := "work" }) s ∧ s.blocked = true ∧
      resumedSincePause s.log = true) ∧
    ∃ s, Lib.Reaches (controlStep 3) (.start { intent := "work" }) s ∧ s.blocked = true ∧
      resumedSincePause s.log = true ∧ (s.requests.all fun r => match r.pc with
        | .ended => true
        | _ => false) = true := by
  constructor
  · obtain ⟨s, hs, hp⟩ := Lib.exists_reaches_of_run (controlStep 3) resumeWhileWaiting
      (.start { intent := "work" }) (fun s => s.blocked && resumedSincePause s.log) (by decide +kernel)
    rw [Bool.and_eq_true] at hp
    exact ⟨s, hs, hp⟩
  · obtain ⟨s, hs, hp⟩ := Lib.exists_reaches_of_run (controlStep 3) resumeInGap
      (.start { intent := "work" }) (fun s => s.blocked && resumedSincePause s.log &&
        s.requests.all fun r => match r.pc with
          | .ended => true
          | _ => false) (by decide +kernel)
    rw [Bool.and_eq_true, Bool.and_eq_true] at hp
    exact ⟨s, hs, hp.1.1, hp.1.2, hp.2⟩

/-- The resume of a loop that waits: it is about to set the event. -/
theorem waiting_loop_is_woken : ∃ s,
    Lib.ReachesVia (controlStep 3) (fun s m => resumesOutsideGap s m = true)
      (.start { intent := "work" }) s ∧
    (s.blocked = true ∧ resumedSincePause s.log = true) ∧ s.signalling := by
  obtain ⟨s, hs, hp⟩ := Lib.exists_reachesVia_of_run (controlStep 3) resumesOutsideGap resumeWhileWaiting
    (.start { intent := "work" }) (fun s => s.blocked && resumedSincePause s.log) (by decide +kernel)
  rw [Bool.and_eq_true] at hp
  exact ⟨s, hs, hp, resumed_loop_is_woken { intent := "work" } hs hp.1 hp.2⟩

end scenario
end JAgent
