import JAgent.Core.Status
import JAgent.Lib.System

/-! # The end of a run

The operations that write RUN events, each as the actions between its awaits: `_complete`,
`_fail`, `pause` and `resume` take `_resume_lock`, read the log, decide, and append;
`_append_run_event` reads, decides and appends without the lock; the serial loop and `delete_run`
append without looking whether the run has ended.  Any number of them may be under way, each may
be dropped at an await, and other components append events that are not RUN events.

A run ends once as long as the operations without the lock keep out of the way: they write no
status after the end, and no end while the holder of the lock is between its check and its append
(`run_ends_once`). -/

namespace JAgent

/-- The operations that write RUN events. -/
inductive Operation where
  | complete (p : RunCompletedPayload)
  | fail (p : RunFailedPayload)
  | pause
  | resume
  | appendRunEvent (p : Payload) (allowAfterTerminal : Bool)
  | serialComplete (p : RunCompletedPayload)
  | deleteRun

/-- `async with self._resume_lock`. -/
def Operation.locks : Operation → Bool
  | .complete _ | .fail _ | .pause | .resume => true
  | _ => false

/-- The next action of an operation. -/
inductive WriterPc where
  /-- Take the lock, or start without it. -/
  | entering
  /-- Read the log and decide. -/
  | checking
  /-- Append the event. -/
  | appending (p : Payload)
  /-- Record that a late event was rejected. -/
  | rejecting
  | ended

def WriterPc.isEnded : WriterPc → Bool
  | .ended => true
  | _ => false

def WriterPc.isAppending : WriterPc → Bool
  | .appending _ => true
  | _ => false

structure Writer where
  op : Operation
  pc : WriterPc

/-- The operations on one run. -/
structure Contest where
  log : List Payload
  holder : Option ℕ := none
  writers : List Writer := []

/-- What happens next. -/
inductive ContestMove where
  | call (op : Operation)
  | act (i : ℕ)
  /-- `_is_run_terminal` cannot read the log and takes the run for not ended. -/
  | unread (i : ℕ)
  /-- The operation is cancelled at an await, or an access to the store raises. -/
  | drop (i : ℕ)
  /-- Another component appends an event. -/
  | note (p : Payload)

section machine
variable [Py] (runId : String)

/-- `_is_run_terminal`. -/
def isRunTerminal (log : List Payload) : Except String Bool :=
  if log.isEmpty then .ok false else (foldLog runId log).map fun st => st.status.isTerminal

/-- Where an operation goes when it starts, with the lock if it takes it. -/
def Operation.enter : Operation → WriterPc
  | .appendRunEvent p allowAfterTerminal =>
    if !p.isTerminal && allowAfterTerminal then .appending p else .checking
  | .serialComplete p => .appending (.runCompleted p)
  | _ => .checking

/-- Write an event unless the run has ended. -/
def unlessTerminal (log : List Payload) (p : Payload) (late : WriterPc) : WriterPc :=
  match isRunTerminal runId log with
  | .ok false => .appending p
  | .ok true => late
  | .error _ => .ended

/-- What an operation decides when it has read the log. -/
def Operation.check (log : List Payload) : Operation → WriterPc
  | .complete p => unlessTerminal runId log (.runCompleted p) .ended
  | .fail p => unlessTerminal runId log (.runFailed p) .ended
  | .appendRunEvent p _ => unlessTerminal runId log p .rejecting
  | .pause => match foldLog runId log with
    | .ok st => if st.status = .running then .appending (.runPaused "user_requested") else .ended
    | .error _ => .ended
  | .resume => match foldLog runId log with
    | .ok st => if st.status = .paused then .appending (.runResumed st.seq) else .ended
    | .error _ => .ended
  | .serialComplete p => .appending (.runCompleted p)
  | .deleteRun =>
    if log.isEmpty then .ended
    else .appending (.runFailed { finalError := "Run deleted by user", eventCount := log.length })

/-- What an operation does when `_is_run_terminal` cannot read the log. -/
def Operation.checkUnread : Operation → Option WriterPc
  | .complete p => some (.appending (.runCompleted p))
  | .fail p => some (.appending (.runFailed p))
  | .appendRunEvent p _ => some (.appending p)
  | _ => none

/-- An operation goes on; the lock is released when it ends. -/
def Contest.goto (s : Contest) (i : ℕ) (op : Operation) (pc : WriterPc) : Contest :=
  { s with
    writers := s.writers.set i ⟨op, pc⟩
    holder := if pc.isEnded && s.holder = some i then none else s.holder }

/-- Append an event to the log. -/
def Contest.emit (s : Contest) (p : Payload) : Contest := { s with log := s.log ++ [p] }

/-- One move of the operations on a run. -/
def contestStep (s : Contest) : ContestMove → Option Contest
  | .call op => some { s with writers := s.writers ++ [⟨op, .entering⟩] }
  | .act i => match s.writers[i]? with
    | none => none
    | some ⟨op, pc⟩ => match pc with
      | .entering =>
        if !op.locks then some (s.goto i op op.enter)
        else if s.holder.isNone then some { s.goto i op op.enter with holder := some i }
        else none
      | .checking => some (s.goto i op (op.check runId s.log))
      | .appending p => some ((s.emit p).goto i op .ended)
      | .rejecting => some ((s.emit (.diagnostic "late_event_rejected")).goto i op .ended)
      | .ended => none
  | .unread i => match s.writers[i]? with
    | some ⟨op, .checking⟩ => op.checkUnread.map (s.goto i op)
    | _ => none
  | .drop i => match s.writers[i]? with
    | some ⟨op, pc⟩ => if pc.isEnded then none else some (s.goto i op .ended)
    | none => none
  | .note p => if (statusChange p).isNone then some (s.emit p) else none

end machine

/-! ### The property and its condition -/

/-- At most one event ends the run, and the folded status of a prefix that has ended is the status of
every longer prefix. -/
def EndsOnce [Py] (runId : String) (s : Contest) : Prop :=
  (s.log.filter Payload.isTerminal).length ≤ 1 ∧
    ∀ n m st st', n ≤ m → foldLog runId (s.log.take n) = .ok st → st.status.isTerminal = true →
      foldLog runId (s.log.take m) = .ok st' → st'.status = st.status

/-- The holder of the lock has checked and is about to append. -/
def Contest.committed (s : Contest) : Bool :=
  s.writers.any fun w => w.op.locks && w.pc.isAppending

/-- The operations without the lock keep out of the way, and a check under the lock that cannot read
the log happens only while the run has not ended. -/
def keepsOut (s : Contest) : ContestMove → Bool
  | .act i => match s.writers[i]? with
    | some ⟨op, .appending p⟩ => op.locks || (statusChange p).isNone ||
        (!(statusOf s.log).isTerminal && !(p.isTerminal && s.committed))
    | _ => true
  | .unread i => match s.writers[i]? with
    | some ⟨op, _⟩ => !op.locks || !(statusOf s.log).isTerminal
    | none => true
  | _ => true

/-! ### The invariant -/

/-- The operation holds the lock: it is past its entry and has not ended. -/
def Writer.inside (w : Writer) : Bool :=
  w.op.locks && match w.pc with
    | .checking | .appending _ => true
    | _ => false

/-- Every operation that is inside holds the lock. -/
def Exclusive (s : Contest) : Prop :=
  ∀ (i : ℕ) (w : Writer), s.writers[i]? = some w → w.inside = true → s.holder = some i

/-- What holds between moves. -/
structure ContestInv (s : Contest) : Prop where
  endsLast : EndsLast s.log
  exclusive : Exclusive s
  ready : s.committed = true → (statusOf s.log).isTerminal = false

section invariant
variable {s t : Contest}

/-- Only the operation that moved may be new to the lock or to its append. -/
theorem getElem?_goto {i j : ℕ} {op : Operation} {pc : WriterPc} {w : Writer}
    (h : (s.goto i op pc).writers[j]? = some w) :
    (j = i ∧ w = ⟨op, pc⟩) ∨ (j ≠ i ∧ s.writers[j]? = some w) := by
  unfold Contest.goto at h
  simp only at h
  by_cases hj : j = i
  · subst hj
    rw [List.getElem?_set_self'] at h
    cases hs : s.writers[j]? with
    | none => simp [hs] at h
    | some w' =>
        rw [hs] at h
        exact .inl ⟨rfl, by simpa using h.symm⟩
  · rw [List.getElem?_set_ne (Ne.symm hj)] at h
    exact .inr ⟨hj, h⟩

theorem committed_iff : s.committed = true ↔
    ∃ (i : ℕ) (w : Writer), s.writers[i]? = some w ∧ w.op.locks = true ∧ w.pc.isAppending = true := by
  unfold Contest.committed
  rw [List.any_eq_true]
  constructor
  · rintro ⟨w, hw, h⟩
    obtain ⟨i, hi⟩ := List.mem_iff_getElem?.mp hw
    rw [Bool.and_eq_true] at h
    exact ⟨i, w, hi, h⟩
  · rintro ⟨i, w, hi, h⟩
    exact ⟨w, List.mem_of_getElem? hi, by simpa using h⟩

theorem inside_of_appending {w : Writer} (hl : w.op.locks = true) (ha : w.pc.isAppending = true) :
    w.inside = true := by
  unfold Writer.inside
  cases hp : w.pc <;> simp_all [WriterPc.isAppending]

theorem Exclusive.goto (h : Exclusive s) {i : ℕ} {op : Operation} {pc : WriterPc}
    (hin : (Writer.mk op pc).inside = true → s.holder = some i) : Exclusive (s.goto i op pc) := by
  intro j w hj hw
  rcases getElem?_goto hj with ⟨rfl, rfl⟩ | ⟨hne, hj⟩
  · have hend : pc.isEnded = false := by
      cases pc <;> simp_all [Writer.inside, WriterPc.isEnded]
    simp [Contest.goto, hend, hin hw]
  · have hold := h j w hj hw
    simp [Contest.goto, hold, hne]

theorem committed_goto {i : ℕ} {op : Operation} {pc : WriterPc}
    (h : (s.goto i op pc).committed = true) :
    s.committed = true ∨ (op.locks = true ∧ pc.isAppending = true) := by
  obtain ⟨j, w, hj, hl, ha⟩ := committed_iff.mp h
  rcases getElem?_goto hj with ⟨_, rfl⟩ | ⟨_, hj⟩
  · exact .inr ⟨hl, ha⟩
  · exact .inl (committed_iff.mpr ⟨j, w, hj, hl, ha⟩)

/-- When the holder of the lock ends, nobody is left inside. -/
theorem Exclusive.committed_ended (h : Exclusive s) {i : ℕ} {op : Operation}
    (hold : s.holder = some i) : (s.goto i op .ended).committed = false := by
  rw [Bool.eq_false_iff]
  intro hc
  obtain ⟨j, w, hj, hl, ha⟩ := committed_iff.mp hc
  rcases getElem?_goto hj with ⟨_, rfl⟩ | ⟨hne, hj⟩
  · cases ha
  · have hj' := h j w hj (inside_of_appending hl ha)
    rw [hold, Option.some.injEq] at hj'
    exact hne hj'.symm

/-- An operation takes the lock. -/
theorem Exclusive.acquire (h : Exclusive s) {i : ℕ} {op : Operation} (hfree : s.holder = none)
    (hop : op.locks = true) :
    Exclusive { s.goto i op op.enter with holder := some i } ∧
      Contest.committed { s.goto i op op.enter with holder := some i } = false := by
  have hnone : ∀ (j : ℕ) (w : Writer), s.writers[j]? = some w → w.inside = false := by
    intro j w hj
    by_contra hw
    have hj' := h j w hj (by simpa using hw)
    rw [hfree] at hj'
    cases hj'
  constructor
  · intro j w hj hw
    rcases getElem?_goto hj with ⟨rfl, _⟩ | ⟨_, hj⟩
    · rfl
    · rw [hnone j w hj] at hw
      cases hw
  · rw [Bool.eq_false_iff]
    intro hc
    obtain ⟨j, w, hj, hl, ha⟩ := committed_iff.mp hc
    rcases getElem?_goto hj with ⟨_, rfl⟩ | ⟨_, hj⟩
    · cases op with
      | complete p | fail p | pause | resume => cases ha
      | _ => cases hop
    · have hout := hnone j w hj
      rw [inside_of_appending hl ha] at hout
      cases hout

/-- An event that leaves the run open leaves the holder of the lock ready. -/
theorem statusAfter_open {st : RunStatus} {p : Payload} (hst : st.isTerminal = false)
    (hp : p.isTerminal = false) : (statusAfter st p).isTerminal = false := by
  unfold statusAfter
  cases hc : statusChange p with
  | none => exact hst
  | some st' =>
      by_contra hterm
      rw [isTerminal_of_statusChange hc (by simpa using hterm)] at hp
      cases hp

theorem checkUnread_appending {op : Operation} {pc : WriterPc} (h : op.checkUnread = some pc) :
    ∃ p, pc = .appending p := by
  cases op with
  | complete p | fail p | appendRunEvent p _ =>
      cases h
      exact ⟨_, rfl⟩
  | _ => cases h

/-- An operation goes on without writing. -/
theorem ContestInv.goto (h : ContestInv s) {i : ℕ} {op : Operation} {pc : WriterPc}
    (hin : (Writer.mk op pc).inside = true → s.holder = some i)
    (hst : op.locks = true → pc.isAppending = true → (statusOf s.log).isTerminal = false) :
    ContestInv (s.goto i op pc) := by
  refine ⟨h.endsLast, h.exclusive.goto hin, fun hc => ?_⟩
  rcases committed_goto hc with hc | ⟨hl, ha⟩
  · exact h.ready hc
  · exact hst hl ha

/-- An event is appended by somebody who is not inside. -/
theorem ContestInv.emit (h : ContestInv s) {p : Payload}
    (hp : statusChange p = none ∨ ((statusOf s.log).isTerminal = false ∧
      (p.isTerminal = true → s.committed = false))) : ContestInv (s.emit p) := by
  refine ⟨h.endsLast.append (hp.imp_right And.left), h.exclusive, fun hc => ?_⟩
  have hopen := h.ready hc
  show (statusOf (s.log ++ [p])).isTerminal = false
  rw [statusOf_append]
  apply statusAfter_open hopen
  cases hterm : p.isTerminal with
  | false => rfl
  | true =>
      rcases hp with hp | ⟨_, hp⟩
      · obtain ⟨st, hst, _⟩ := statusChange_of_isTerminal hterm
        rw [hp] at hst
        cases hst
      · have hc' : s.committed = true := hc
        rw [hp hterm] at hc'
        cases hc'

variable [Py] {runId : String}

/-- **An operation under the lock appends only if the run has not ended.** -/
theorem check_locked {op : Operation} {log : List Payload} (hop : op.locks = true) :
    op.check runId log = .ended ∨
      ∃ p, op.check runId log = .appending p ∧ (statusOf log).isTerminal = false := by
  have hterm : ∀ p, unlessTerminal runId log p .ended = .ended ∨
      ∃ p', unlessTerminal runId log p .ended = .appending p' ∧ (statusOf log).isTerminal = false := by
    intro p
    unfold unlessTerminal isRunTerminal
    by_cases he : log.isEmpty = true
    · rw [if_pos he]
      rw [List.isEmpty_iff] at he
      subst he
      exact .inr ⟨p, rfl, rfl⟩
    · rw [if_neg he]
      cases hf : foldLog runId log with
      | error e => exact .inl rfl
      | ok st =>
          have hst := foldLog_status hf
          cases hb : st.status.isTerminal with
          | true => simp [Except.map, hb]
          | false => exact .inr ⟨p, by simp [Except.map, hb], by rw [← hst]; exact hb⟩
  have hread : ∀ (want : RunStatus) (p : RunState → Payload), want.isTerminal = false →
      (match foldLog runId log with
        | .ok st => if st.status = want then WriterPc.appending (p st) else .ended
        | .error _ => .ended) = .ended ∨
      ∃ p', (match foldLog runId log with
        | .ok st => if st.status = want then WriterPc.appending (p st) else .ended
        | .error _ => .ended) = .appending p' ∧ (statusOf log).isTerminal = false := by
    intro want p hw
    cases hf : foldLog runId log with
    | error e => exact .inl rfl
    | ok st =>
        have hst := foldLog_status hf
        by_cases heq : st.status = want
        · exact .inr ⟨p st, by simp [heq], by rw [← hst, heq]; exact hw⟩
        · exact .inl (by simp [heq])
  cases op with
  | complete p => exact hterm _
  | fail p => exact hterm _
  | pause => exact hread .running (fun _ => .runPaused "user_requested") rfl
  | resume => exact hread .paused (fun st => .runResumed st.seq) rfl
  | _ => cases hop

/-! ### One move -/

omit [Py] in
theorem ContestInv.appendLocked (h : ContestInv s) {i : ℕ} {op : Operation} {p : Payload}
    (hi : s.writers[i]? = some ⟨op, .appending p⟩) (hop : op.locks = true) :
    ContestInv ((s.emit p).goto i op .ended) := by
  have hin : (Writer.mk op (.appending p)).inside = true := by simp [Writer.inside, hop]
  have hopen := h.ready (committed_iff.mpr ⟨i, _, hi, hop, rfl⟩)
  have hex : Exclusive (s.emit p) := h.exclusive
  refine ⟨h.endsLast.append (.inr hopen), hex.goto (by simp [Writer.inside]), fun hc => ?_⟩
  rw [hex.committed_ended (h.exclusive i _ hi hin)] at hc
  cases hc

/-- **One move keeps the run ending once.** -/
theorem ContestInv.step {m : ContestMove} (h : ContestInv s) (hok : keepsOut s m = true)
    (hs : contestStep runId s m = some t) : ContestInv t := by
  unfold contestStep at hs
  split at hs
  next op =>
    cases hs
    refine ⟨h.endsLast, fun i w hi hw => ?_, fun hc => h.ready ?_⟩
    · rw [List.getElem?_append] at hi
      split_ifs at hi
      · exact h.exclusive i w hi hw
      · -- the new operation has not entered
        have hnew := List.mem_singleton.mp (List.mem_of_getElem? hi)
        rw [hnew] at hw
        simp [Writer.inside] at hw
    · simpa [Contest.committed, WriterPc.isAppending] using hc
  next i =>
    split at hs
    next => cases hs
    next op pc hi =>
      split at hs
      next =>
        split_ifs at hs with hop hfree
        · cases hs
          have hop' : op.locks = false := by simpa using hop
          exact h.goto (by simp [Writer.inside, hop']) (by simp [hop'])
        · cases hs
          have hop' : op.locks = true := by simpa using hop
          obtain ⟨hex, hcom⟩ := h.exclusive.acquire (by simpa using hfree) hop'
          exact ⟨h.endsLast, hex, fun hc => absurd hc (by rw [hcom]; exact Bool.false_ne_true)⟩
      next =>
        cases hs
        refine h.goto (fun hin => ?_) (fun hop ha => ?_)
        · have hop : op.locks = true := by
            unfold Writer.inside at hin
            rw [Bool.and_eq_true] at hin
            exact hin.1
          exact h.exclusive i _ hi (by simp [Writer.inside, hop])
        · rcases check_locked hop with he | ⟨p, _, hst⟩
          · rw [he] at ha
            cases ha
          · exact hst
      next p =>
        cases hs
        cases hop : op.locks with
        | true => exact h.appendLocked hi hop
        | false =>
            simp only [keepsOut, hi, hop, Bool.false_or, Bool.or_eq_true, Bool.and_eq_true,
              Option.isNone_iff_eq_none, Bool.not_eq_true', Bool.and_eq_false_iff] at hok
            have hemit : ContestInv (s.emit p) := by
              refine h.emit (hok.imp_right fun hok => ⟨hok.1, fun hp => ?_⟩)
              rcases hok.2 with h1 | h1
              · rw [hp] at h1
                cases h1
              · exact h1
            exact hemit.goto (by simp [Writer.inside]) (by simp [WriterPc.isAppending])
      next =>
        cases hs
        have hemit : ContestInv (s.emit (.diagnostic "late_event_rejected")) := h.emit (.inl rfl)
        exact hemit.goto (by simp [Writer.inside]) (by simp [WriterPc.isAppending])
      next => cases hs
  next i =>
    split at hs
    next op hi =>
      obtain ⟨pc, hpc, rfl⟩ := Option.map_eq_some_iff.mp hs
      obtain ⟨p, rfl⟩ := checkUnread_appending hpc
      refine h.goto (fun hin => ?_) (fun hop _ => ?_)
      · have hop : op.locks = true := by simpa [Writer.inside] using hin
        exact h.exclusive i _ hi (by simp [Writer.inside, hop])
      · simpa [keepsOut, hi, hop] using hok
    next => cases hs
  next i =>
    split at hs
    next op pc hi =>
      split_ifs at hs
      cases hs
      exact h.goto (by simp [Writer.inside]) (by simp [WriterPc.isAppending])
    next => cases hs
  next p =>
    split_ifs at hs with hp
    cases hs
    exact h.emit (.inl (Option.isNone_iff_eq_none.mp hp))

/-- A run that has just been started. -/
def Contest.start (p : RunStartedPayload) : Contest := { log := [.runStarted p] }

omit [Py] in
theorem ContestInv.start (p : RunStartedPayload) : ContestInv (.start p) := by
  refine ⟨?_, by simp [Exclusive, Contest.start], by simp [Contest.committed, Contest.start]⟩
  intro pre q post heq hq
  have hmem : q ∈ [Payload.runStarted p] := by
    rw [show [Payload.runStarted p] = pre ++ q :: post from heq]
    simp
  rw [List.mem_singleton] at hmem
  rw [hmem] at hq
  cases hq

theorem EndsLast.endsOnce (h : EndsLast s.log) : EndsOnce runId s := by
  refine ⟨h.length_le, fun n m st st' hnm hst hterm hst' => ?_⟩
  rw [foldLog_status hst] at hterm ⊢
  rw [foldLog_status hst']
  exact h.statusOf_take hnm hterm

/-- **A run ends once, as long as the operations without the lock keep out of the way.**  In every
interleaving in which `_append_run_event`, the serial loop and `delete_run` write no status after the
end of the run, and no end while a lock holder is between its check and its append, the log holds at
most one end and the status stays once the run has ended. -/
theorem run_ends_once (p : RunStartedPayload)
    (h : Lib.ReachesVia (contestStep runId) (fun s m => keepsOut s m = true) (.start p) s) :
    EndsOnce runId s := by
  have hinv : ContestInv s := h.invariant (.start p) fun _ _ _ _ hok hi hs => hi.step hok hs
  exact hinv.endsLast.endsOnce

end invariant

/-! ### A run that is deleted after its end -/

section scenario
attribute [local instance] asciiPy

/-- The run completes, and is then deleted. -/
def deleteAfterEnd : List ContestMove :=
  [ContestMove.call (.complete { resultSummary := "done" }), .act 0, .act 0, .act 0,
    .call .deleteRun, .act 1, .act 1, .act 1]

/-- The log holds two ends, and the status changes after the first. -/
theorem deleted_run_ends_twice : ∃ s,
    Lib.Reaches (contestStep "run") (.start { intent := "work" }) s ∧ ¬EndsOnce "run" s ∧
      (s.log.filter Payload.isTerminal).length = 2 ∧
      statusOf (s.log.take 2) = .completed ∧ statusOf s.log = .failed := by
  obtain ⟨s, hs, hp⟩ := Lib.exists_reaches_of_run (contestStep "run") deleteAfterEnd
    (.start { intent := "work" }) (fun s => (s.log.filter Payload.isTerminal).length = 2 &&
      statusOf (s.log.take 2) = .completed && statusOf s.log = .failed) (by decide +kernel)
  simp only [Bool.and_eq_true, decide_eq_true_eq] at hp
  refine ⟨s, hs, fun h => ?_, hp.1.1, hp.1.2, hp.2⟩
  have hle := h.1
  rw [hp.1.1] at hle
  omega

/-- A pause, a resume, and two attempts to end the run: the second comes to nothing. -/
theorem paused_run_ends_once : ∃ s,
    Lib.ReachesVia (contestStep "run") (fun s m => keepsOut s m = true) (.start { intent := "work" }) s ∧
      (s.log.length = 4 ∧ statusOf s.log = .completed) ∧ EndsOnce "run" s := by
  obtain ⟨s, hs, hp⟩ := Lib.exists_reachesVia_of_run (contestStep "run") keepsOut
    [.call .pause, .act 0, .act 0, .act 0, .call .resume, .call (.complete { resultSummary := "done" }),
      .act 1, .act 1, .act 1, .call (.fail { finalError := "late", eventCount := 3 }),
      .act 2, .act 2, .act 2, .act 3, .act 3]
    (.start { intent := "work" }) (fun s => s.log.length = 4 && statusOf s.log = .completed)
    (by decide +kernel)
  simp only [Bool.and_eq_true, decide_eq_true_eq] at hp
  exact ⟨s, hs, hp, run_ends_once { intent := "work" } hs⟩

end scenario
end JAgent
