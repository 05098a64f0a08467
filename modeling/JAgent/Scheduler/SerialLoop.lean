import JAgent.Core.DagExecutor
import JAgent.Core.Status
import JAgent.Lib.Streaks

/-! # The serial loop

`AgentLoopScheduler` asks the kernel what to do, records the thought, makes the tool calls that the kernel lists, one
after the other, and begins again.  Three budgets keep it from going on for ever: the number of iterations, the
number of failures in a row (the circuit breaker), and the number of times a call is repeated because it still waits
for a confirmation.

`serialLoopStep` takes the loop from one await to the next.  What an await brings is a move of the environment: the
answer of the kernel or of a tool, a time-out, an exception, and at any time events of others and a request to
cancel.  `SerialRun.rounds` and `SerialRun.outcomes` remember what the kernel has listed, what was made of it and
how the calls have ended.

The run theorem (`serial_run`) says of every run, whatever the environment does, what the budgets promise, that
nothing is called that was not listed before, and that the loop does not end without a terminal event, unless it was
cancelled while it waited for a confirmation. -/

namespace JAgent
open Lib

/-- `ThinkResult`. -/
structure ThinkResult where
  thought : String
  toolName : Option String := none
  toolInput : Option Obj := none
  directAnswer : Option String := none
  toolCallId : Option String := none
deriving DecidableEq

/-- `SchedulerConfig`, and the names of the tools with a definition and with a handler. -/
structure SerialConfig where
  runAttemptBudget : ℕ := 20
  maxConfirmRetries : ℕ := 10
  runTimeoutMs : ℕ := 0
  toolDefs : List String
  toolFns : List String

/-- Where the loop is. -/
inductive SerialPc where
  /-- The head of the next iteration. -/
  | head
  /-- About to read the log. -/
  | reading
  /-- The status was read; the context manager may still run. -/
  | observed (status : RunStatus)
  /-- Waiting in `_handle_pause`. -/
  | pausing
  /-- Back from `_handle_pause`, about to read the log once more. -/
  | rereading
  /-- Waiting for the kernel. -/
  | thinking
  /-- The kernel has answered; the thought is about to be recorded. -/
  | recording (results : List ThinkResult)
  /-- The results that are still to be acted on. -/
  | acting (left : List ThinkResult)
  /-- A tool runs: for the first time, or again after some confirmations. -/
  | executing (call : ThinkResult) (left : List ThinkResult) (retries : Option ℕ)
  /-- The head of the confirmation loop. -/
  | confirming (call : ThinkResult) (left : List ThinkResult) (retries : ℕ)
  /-- Waiting in `_wait_for_resume`. -/
  | waiting (call : ThinkResult) (left : List ThinkResult) (retries : ℕ)
  /-- Back from `_wait_for_resume`. -/
  | woken (call : ThinkResult) (left : List ThinkResult) (retries : ℕ)
  /-- `_fail` checks whether the run has ended; then the loop goes on at `next`. -/
  | failing (error : String) (next : SerialPc)
  /-- `_fail` is about to append RunFailed. -/
  | failWriting (error : String) (next : SerialPc)
  | ended

/-- The loop has ended. -/
def SerialPc.hasEnded : SerialPc → Bool
  | .ended => true
  | _ => false

/-- An exception raised here escapes from the loop. -/
def SerialPc.raises : SerialPc → Bool
  | .executing _ _ none | .failing .. | .failWriting .. | .ended => false
  | _ => true

/-- An iteration: what the kernel has listed, and which calls were begun how often. -/
structure SerialRound where
  listed : List ThinkResult
  begun : List (ThinkResult × ℕ) := []

/-- A run of the loop. -/
structure SerialRun where
  log : List Payload
  cancelFlag : Bool := false
  /-- Somebody has called `cancel`. -/
  cancelAsked : Bool := false
  pc : SerialPc := .head
  iteration : ℕ := 0
  failures : ℕ := 0
  rounds : List SerialRound := []
  /-- For each call that has come back, whether it failed. -/
  outcomes : List Bool := []

/-- What happens next. -/
inductive SerialMove where
  /-- The loop goes on by itself. -/
  | tick
  /-- The wait ends because its event is set or its time is over. -/
  | wake
  | waitTimeout
  | thought (results : List ThinkResult)
  | executed (status : ExecutionStatus)
  | executeTimeout
  | executeRaised (text : String)
  /-- An exception escapes from the loop. -/
  | escape (text : String)
  /-- The watchdog of the run. -/
  | watchdog
  | cancel
  /-- Another component appends an event. -/
  | note (p : Payload)

/-- The AgentThought event of an answer of the kernel. -/
def thoughtEvent (first : ThinkResult) (results : List ThinkResult) : Payload :=
  let toolNames := (results.filterMap (·.toolName)).filter (· ≠ "")
  .agentThought first.thought first.toolName (if toolNames.isEmpty then none else some toolNames)

/-- The AgentThought event of an iteration. -/
def SerialRound.event (r : SerialRound) : Option Payload := r.listed.head?.map fun first => thoughtEvent first r.listed

/-- A call is begun. -/
def SerialRound.begin (r : SerialRound) (call : ThinkResult) : SerialRound := { r with begun := r.begun ++ [(call, 1)] }

/-- The last call is begun once more. -/
def SerialRound.again (r : SerialRound) : SerialRound :=
  { r with begun := r.begun.dropLast ++ (r.begun.getLast?.map fun b => (b.1, b.2 + 1)).toList }

/-- Change the iteration that is under way. -/
def editLast (f : SerialRound → SerialRound) (rounds : List SerialRound) : List SerialRound :=
  rounds.dropLast ++ (rounds.getLast?.map f).toList

namespace SerialRun
variable (cfg : SerialConfig) (s : SerialRun)

def goto (pc : SerialPc) : SerialRun := { s with pc := pc }

def emit (p : Payload) : SerialRun := { s with log := s.log ++ [p] }

/-- `_fail`, and then the end of the loop. -/
def failRun (error : String) : SerialRun := s.goto (.failing error .ended)

/-- A call has succeeded. -/
def succeeded (left : List ThinkResult) : SerialRun :=
  { s with failures := 0, outcomes := s.outcomes ++ [false], pc := .acting left }

/-- A call has failed; `_breaker_tripped`. -/
def failed (left : List ThinkResult) : SerialRun :=
  let s' := { s with failures := s.failures + 1, outcomes := s.outcomes ++ [true] }
  if cfg.runAttemptBudget ≤ s.failures + 1 then
    s'.failRun ("Circuit breaker: " ++ toString (s.failures + 1) ++ " consecutive failures")
  else s'.goto (.acting left)

/-- The head of an iteration. -/
def beginIteration : SerialRun :=
  if cfg.runAttemptBudget ≤ s.iteration then
    s.failRun ("Exceeded max iterations (" ++ toString cfg.runAttemptBudget ++ ")")
  else if s.cancelFlag then s.failRun "Run cancelled by user"
  else { s with iteration := s.iteration + 1, pc := .reading }

/-- What is done with the next result. -/
def actOn (r : ThinkResult) (left : List ThinkResult) : SerialRun :=
  match r.directAnswer.filter (· ≠ "") with
  | some answer => (s.emit (.runCompleted { resultSummary := answer })).goto .ended
  | none => match r.toolName with
    | none => (s.emit (.runCompleted { resultSummary := r.thought })).goto .ended
    | some name =>
        if name ∉ cfg.toolDefs then s.failRun ("serial act: " ++ unknownToolMessage name)
        else if name ∉ cfg.toolFns then s.failRun ("Tool '" ++ name ++ "' has no handler registered")
        else { s with rounds := editLast (·.begin r) s.rounds, pc := .executing r left none }

/-- The loop goes on by itself. -/
def tick : Option SerialRun :=
  match s.pc with
  | .head => some (s.beginIteration cfg)
  | .reading => some (s.goto (.observed (statusOf s.log)))
  | .observed status =>
      some (s.goto (if status.isTerminal then .ended else if status = .paused then .pausing else .thinking))
  | .rereading => some (s.goto (if (statusOf s.log).isTerminal then .ended else .thinking))
  | .recording [] => some (s.failRun "Unhandled scheduler error: IndexError('list index out of range')")
  | .recording (first :: rest) =>
      some { s.emit (thoughtEvent first (first :: rest)) with
        rounds := s.rounds ++ [⟨first :: rest, []⟩], pc := .acting (first :: rest) }
  | .acting [] => some (s.goto .head)
  | .acting (r :: left) => some (s.actOn cfg r left)
  | .confirming call left retries =>
      if cfg.maxConfirmRetries ≤ retries then
        some (s.failRun ("Max confirmation retries (" ++ toString cfg.maxConfirmRetries ++ ") exceeded"))
      else some ((s.emit (.runPaused "waiting_confirmation")).goto (.waiting call left retries))
  | .woken call left retries =>
      if s.cancelFlag then some (s.goto .ended)
      else if (statusOf s.log).isTerminal then some (s.goto .ended)
      else some { s with rounds := editLast (·.again) s.rounds, pc := .executing call left (some retries) }
  | .failing error next =>
      some (s.goto (if (statusOf s.log).isTerminal then next else .failWriting error next))
  | .failWriting error next =>
      some { s.emit (.runFailed { finalError := error, eventCount := s.log.length }) with
        cancelFlag := true, pc := next }
  | _ => none

/-- A tool call comes back. -/
def executed (call : ThinkResult) (left : List ThinkResult) (retries : Option ℕ) : ExecutionStatus → SerialRun
  | .completed | .idempotencyHit => s.succeeded left
  | .confirmationNeeded => s.goto (.confirming call left (retries.elim 0 (· + 1)))
  | .failed | .timeout | .guardrailBlocked => s.failed cfg left

/-- The message of the watchdog. -/
def timedOut (cfg : SerialConfig) : String := "Run timed out after " ++ toString cfg.runTimeoutMs ++ "ms (watchdog)"

/-- A tool call raises: the first call of a tool is guarded, a call after a confirmation is not. -/
def executeRaised (text : String) (left : List ThinkResult) : Option ℕ → SerialRun
  | none => s.failed cfg left
  | some _ => s.failRun ("Unhandled scheduler error: " ++ text)

/-- A tool call exhausts the time of the run. -/
def executeTimeout (call : ThinkResult) : Option ℕ → SerialRun
  | none => s.failRun ("Tool phase timed out: " ++ call.toolName.getD "")
  | some _ => s.failRun (timedOut cfg)

end SerialRun

/-- One move. -/
def serialLoopStep (cfg : SerialConfig) (s : SerialRun) : SerialMove → Option SerialRun
  | .tick => s.tick cfg
  | .wake => match s.pc with
    | .pausing => some (s.goto .rereading)
    | .waiting call left retries => some (s.goto (.woken call left retries))
    | _ => none
  | .waitTimeout => match s.pc with
    | .pausing => some (s.goto .rereading)
    | .waiting call left retries =>
        some (s.goto (if s.cancelFlag then .woken call left retries
          else .failing "Confirmation timed out" (.woken call left retries)))
    | _ => none
  | .thought results => match s.pc with
    | .thinking => some (s.goto (.recording results))
    | _ => none
  | .executed status => match s.pc with
    | .executing call left retries => some (s.executed cfg call left retries status)
    | _ => none
  | .executeTimeout => match s.pc with
    | .executing call _ retries => some (s.executeTimeout cfg call retries)
    | _ => none
  | .executeRaised text => match s.pc with
    | .executing _ left retries => some (s.executeRaised cfg text left retries)
    | _ => none
  | .escape text => if s.pc.raises then some (s.failRun ("Unhandled scheduler error: " ++ text)) else none
  | .watchdog =>
      if 0 < cfg.runTimeoutMs ∧ s.pc.hasEnded = false then some (s.failRun (SerialRun.timedOut cfg)) else none
  | .cancel => some { s with cancelFlag := true, cancelAsked := true }
  | .note p => if p.eventType = .agentThought then none else some (s.emit p)

/-- A run of which others have written the first events. -/
def SerialRun.start (log : List Payload) : SerialRun := { log := log }

/-! ### What every run keeps -/

/-- The call may be made: its tool has a definition and a handler. -/
def Callable (cfg : SerialConfig) (call : ThinkResult) : Prop :=
  ∃ name, call.toolName = some name ∧ name ∈ cfg.toolDefs ∧ name ∈ cfg.toolFns

/-- What was begun of an iteration is the beginning of what was listed, each call a bounded number of times. -/
structure SerialRound.Sound (cfg : SerialConfig) (r : SerialRound) : Prop where
  listed : r.begun.map Prod.fst <+: r.listed
  callable : ∀ call n, (call, n) ∈ r.begun → Callable cfg call
  often : ∀ call n, (call, n) ∈ r.begun → n ≤ cfg.maxConfirmRetries + 1

/-- The last iteration has begun `call` for the `n`-th time, and `left` is still to be acted on. -/
def OpenAt (rounds : List SerialRound) (call : ThinkResult) (left : List ThinkResult) (n : ℕ) : Prop :=
  ∃ front r done, rounds = front ++ [r] ∧ r.begun = done ++ [(call, n)] ∧ r.listed = r.begun.map Prod.fst ++ left

namespace SerialPc

/-- An iteration was begun that has no thought yet. -/
def pending : SerialPc → ℕ
  | .reading | .observed _ | .pausing | .rereading | .thinking | .recording _ => 1
  | _ => 0

/-- What the place of the loop says about the last iteration. -/
def Fits (cfg : SerialConfig) (rounds : List SerialRound) : SerialPc → Prop
  | .acting left => ∃ front r, rounds = front ++ [r] ∧ r.listed = r.begun.map Prod.fst ++ left
  | .executing call left none => OpenAt rounds call left 1
  | .executing call left (some retries) => OpenAt rounds call left (retries + 2) ∧ retries < cfg.maxConfirmRetries
  | .confirming call left retries => OpenAt rounds call left (retries + 1)
  | .waiting call left retries => OpenAt rounds call left (retries + 1) ∧ retries < cfg.maxConfirmRetries
  | .woken call left retries => OpenAt rounds call left (retries + 1) ∧ retries < cfg.maxConfirmRetries
  | .failing _ next => next.pending = 0 ∧ next.Fits cfg rounds
  | .failWriting _ next => next.pending = 0 ∧ next.Fits cfg rounds
  | _ => True

/-- The loop may still make calls. -/
def goesOn : SerialPc → Bool
  | .failing _ next => next.goesOn
  | .failWriting _ next => next.goesOn
  | .ended => false
  | _ => true

/-- The loop has ended, or has read that the run has. -/
def closing : SerialPc → Bool
  | .observed status => status.isTerminal
  | .ended => true
  | _ => false

end SerialPc

/-- The run has ended, or somebody has asked to cancel it. -/
def SerialRun.Closed (s : SerialRun) : Prop := s.cancelAsked = true ∨ ∃ p ∈ s.log, p.isTerminal = true

/-- The events in which thoughts are recorded. -/
def isThought (p : Payload) : Bool := decide (p.eventType = .agentThought)

/-- What every step of the loop keeps. -/
structure SerialInv (cfg : SerialConfig) (s : SerialRun) : Prop where
  thoughts : s.log.filter isThought = s.rounds.filterMap SerialRound.event
  recorded : ∀ r ∈ s.rounds, r.listed ≠ []
  count : s.rounds.length + s.pc.pending ≤ s.iteration
  budget : s.iteration ≤ cfg.runAttemptBudget
  sound : ∀ r ∈ s.rounds, r.Sound cfg
  fits : s.pc.Fits cfg s.rounds
  streak : s.failures = Lib.streak (fun b => b) s.outcomes
  bounded : Bounded (fun b => b) cfg.runAttemptBudget s.outcomes
  below : s.pc.goesOn = true → s.failures = 0 ∨ s.failures < cfg.runAttemptBudget
  closed : s.pc.closing = true ∨ s.cancelFlag = true → s.Closed

section steps
variable {cfg : SerialConfig} {s t : SerialRun}

theorem exists_terminal_of_status {log : List Payload} (h : (statusOf log).isTerminal = true) :
    ∃ p ∈ log, p.isTerminal = true := by
  induction log using List.reverseRecOn with
  | nil => exact absurd h Bool.false_ne_true
  | append_singleton log p ih =>
      rw [statusOf_append, statusAfter] at h
      cases hchange : statusChange p with
      | none =>
          rw [hchange, Option.getD_none] at h
          obtain ⟨q, hq, hterminal⟩ := ih h
          exact ⟨q, List.mem_append_left _ hq, hterminal⟩
      | some st =>
          refine ⟨p, List.mem_append_right _ List.mem_cons_self, ?_⟩
          rw [hchange, Option.getD_some] at h
          cases p <;> cases hchange <;> first | rfl | exact absurd h Bool.false_ne_true

/-- Only the place of the loop changes. -/
theorem SerialInv.goto (h : SerialInv cfg s) {pc : SerialPc} (hpending : pc.pending ≤ s.pc.pending)
    (hfits : pc.Fits cfg s.rounds) (hgoes : pc.goesOn = true → s.pc.goesOn = true)
    (hclosing : pc.closing = true → s.Closed) : SerialInv cfg (s.goto pc) where
  thoughts := h.thoughts
  recorded := h.recorded
  count := le_trans (Nat.add_le_add_left hpending _) h.count
  budget := h.budget
  sound := h.sound
  fits := hfits
  streak := h.streak
  bounded := h.bounded
  below := fun hpc => h.below (hgoes hpc)
  closed := fun hpc => hpc.elim hclosing (fun hflag => h.closed (.inr hflag))

theorem SerialInv.failRun (h : SerialInv cfg s) (error : String) : SerialInv cfg (s.failRun error) :=
  h.goto (Nat.zero_le _) ⟨rfl, trivial⟩ (fun hgoes => absurd hgoes Bool.false_ne_true)
    (fun hclosing => absurd hclosing Bool.false_ne_true)

/-- An event that is no thought is appended. -/
theorem SerialInv.emit (h : SerialInv cfg s) {p : Payload} (hp : isThought p = false) : SerialInv cfg (s.emit p) where
  thoughts := by
    show (s.log ++ [p]).filter isThought = _
    rw [List.filter_append, List.filter_singleton, hp, cond_false, List.append_nil]
    exact h.thoughts
  recorded := h.recorded
  count := h.count
  budget := h.budget
  sound := h.sound
  fits := h.fits
  streak := h.streak
  bounded := h.bounded
  below := h.below
  closed := fun hpc => (h.closed hpc).imp_right fun ⟨q, hq, hterminal⟩ =>
    ⟨q, List.mem_append_left _ hq, hterminal⟩

/-- The loop ends with the event that completes the run. -/
theorem SerialInv.complete (h : SerialInv cfg s) (p : RunCompletedPayload) :
    SerialInv cfg ((s.emit (.runCompleted p)).goto .ended) := by
  apply (h.emit (show isThought (.runCompleted p) = false from rfl)).goto (Nat.zero_le _)
  · trivial
  · intro hgoes
    exact absurd hgoes Bool.false_ne_true
  · intro _
    exact .inr ⟨.runCompleted p, List.mem_append_right _ List.mem_cons_self, rfl⟩

theorem OpenAt.acting {rounds : List SerialRound} {call : ThinkResult} {left : List ThinkResult} {n : ℕ}
    (h : OpenAt rounds call left n) : (SerialPc.acting left).Fits cfg rounds := by
  obtain ⟨front, r, done, hrounds, -, hlisted⟩ := h
  exact ⟨front, r, hrounds, hlisted⟩

/-- An iteration with a call under way was begun. -/
theorem SerialInv.iteration_pos (h : SerialInv cfg s) {call : ThinkResult} {left : List ThinkResult} {n : ℕ}
    (hopen : OpenAt s.rounds call left n) : 0 < s.iteration := by
  obtain ⟨front, r, done, hrounds, -, -⟩ := hopen
  have hcount := h.count
  rw [hrounds, List.length_append, List.length_singleton] at hcount
  omega

theorem SerialInv.succeeded (h : SerialInv cfg s) {call : ThinkResult} {left : List ThinkResult} {n : ℕ}
    (hopen : OpenAt s.rounds call left n) : SerialInv cfg (s.succeeded left) where
  thoughts := h.thoughts
  recorded := h.recorded
  count := le_trans (Nat.add_le_add_left (Nat.zero_le _) _) h.count
  budget := h.budget
  sound := h.sound
  fits := hopen.acting
  streak := (streak_append_neg rfl).symm
  bounded := h.bounded.append (by rw [streak_append_neg rfl]; exact Nat.zero_le _)
  below := fun _ => .inl rfl
  closed := fun hpc => h.closed (hpc.imp_left fun hclosing => absurd hclosing Bool.false_ne_true)

theorem SerialInv.failed (h : SerialInv cfg s) {call : ThinkResult} {left : List ThinkResult} {n : ℕ}
    (hopen : OpenAt s.rounds call left n) (hgoes : s.pc.goesOn = true) : SerialInv cfg (s.failed cfg left) := by
  have hpos := h.iteration_pos hopen
  have hbudget := h.budget
  have hstreak : s.failures + 1 = Lib.streak (fun b => b) (s.outcomes ++ [true]) := by
    rw [streak_append_pos rfl, h.streak]
  have hle : s.failures + 1 ≤ cfg.runAttemptBudget := by
    obtain hzero | hbelow := h.below hgoes <;> omega
  have hcounted : SerialInv cfg { s with failures := s.failures + 1, outcomes := s.outcomes ++ [true],
                                         pc := .failing "" .ended } := {
    thoughts := h.thoughts
    recorded := h.recorded
    count := le_trans (Nat.add_le_add_left (Nat.zero_le _) _) h.count
    budget := h.budget
    sound := h.sound
    fits := ⟨rfl, trivial⟩
    streak := hstreak
    bounded := h.bounded.append (by rw [← hstreak]; exact hle)
    below := fun hfail => absurd hfail Bool.false_ne_true
    closed := fun hpc => h.closed (hpc.imp_left fun hclosing => absurd hclosing Bool.false_ne_true) }
  rw [SerialRun.failed]
  split_ifs with htrip
  · exact hcounted.failRun _
  · exact { hcounted with
      fits := hopen.acting
      below := fun _ => .inr (by show s.failures + 1 < _; omega)
      closed := fun hpc => h.closed (hpc.imp_left fun hclosing => absurd hclosing Bool.false_ne_true) }

theorem editLast_append (f : SerialRound → SerialRound) (front : List SerialRound) (r : SerialRound) :
    editLast f (front ++ [r]) = front ++ [f r] := by
  rw [editLast, List.dropLast_concat, List.getLast?_concat]
  rfl

/-- The last iteration is edited: what was listed stays. -/
theorem SerialInv.edit (h : SerialInv cfg s) {front : List SerialRound} {r r' : SerialRound} {pc : SerialPc}
    (hrounds : s.rounds = front ++ [r]) (hlisted : r'.listed = r.listed) (hsound : r'.Sound cfg)
    (hpending : pc.pending = 0) (hfits : pc.Fits cfg (front ++ [r'])) (hgoes : s.pc.goesOn = true)
    (hclosing : pc.closing = false) : SerialInv cfg { s with rounds := front ++ [r'], pc := pc } where
  thoughts := by
    have hevent : r'.event = r.event := by rw [SerialRound.event, SerialRound.event, hlisted]
    show s.log.filter isThought = (front ++ [r']).filterMap SerialRound.event
    rw [h.thoughts, hrounds, List.filterMap_append, List.filterMap_append, List.filterMap_cons, List.filterMap_cons,
      hevent]
  recorded := by
    intro q hq
    have hrecorded := h.recorded
    rw [hrounds] at hrecorded
    obtain hq | hq := List.mem_append.mp hq
    · exact hrecorded q (List.mem_append_left _ hq)
    · rw [List.mem_singleton.mp hq, hlisted]
      exact hrecorded r (List.mem_append_right _ List.mem_cons_self)
  count := by
    have hcount := h.count
    rw [hrounds] at hcount
    show (front ++ [r']).length + pc.pending ≤ s.iteration
    rw [List.length_append, List.length_singleton] at hcount ⊢
    omega
  budget := h.budget
  sound := by
    intro q hq
    have hall := h.sound
    rw [hrounds] at hall
    obtain hq | hq := List.mem_append.mp hq
    · exact hall q (List.mem_append_left _ hq)
    · rw [List.mem_singleton.mp hq]
      exact hsound
  fits := hfits
  streak := h.streak
  bounded := h.bounded
  below := fun _ => h.below hgoes
  closed := fun hpc => h.closed (hpc.imp_left fun hclose => absurd (hclosing.symm.trans hclose) Bool.false_ne_true)

/-- A call is begun. -/
theorem SerialInv.actOn (h : SerialInv cfg s) {r : ThinkResult} {left : List ThinkResult}
    (hpc : s.pc = .acting (r :: left)) : SerialInv cfg (s.actOn cfg r left) := by
  have hfits := h.fits
  rw [hpc] at hfits
  obtain ⟨front, rd, hrounds, hlisted⟩ := hfits
  rw [SerialRun.actOn]
  split
  · exact h.complete _
  · split
    · exact h.complete _
    · rename_i name hname
      split_ifs with hdef hfn
      · have hsound : rd.Sound cfg := h.sound rd (by rw [hrounds]; exact List.mem_append_right _ List.mem_cons_self)
        have hbegun : (rd.begin r).begun.map Prod.fst = rd.begun.map Prod.fst ++ [r] := by
          rw [SerialRound.begin, List.map_append]
          rfl
        have hlisted' : (rd.begin r).listed = (rd.begin r).begun.map Prod.fst ++ left := by
          rw [hbegun, List.append_assoc]
          exact hlisted
        rw [hrounds, editLast_append]
        refine h.edit hrounds rfl ⟨⟨left, hlisted'.symm⟩, ?_, ?_⟩ rfl ⟨front, rd.begin r, rd.begun, rfl, rfl, hlisted'⟩
          (by rw [hpc]; rfl) rfl
        · intro call n hmem
          obtain hmem | hmem := List.mem_append.mp hmem
          · exact hsound.callable call n hmem
          · obtain ⟨rfl, -⟩ := Prod.mk.inj (List.mem_singleton.mp hmem)
            exact ⟨name, hname, hdef, hfn⟩
        · intro call n hmem
          obtain hmem | hmem := List.mem_append.mp hmem
          · exact hsound.often call n hmem
          · obtain ⟨-, rfl⟩ := Prod.mk.inj (List.mem_singleton.mp hmem)
            omega
      · exact h.failRun _
      · exact h.failRun _

/-- A call is begun once more. -/
theorem SerialInv.again (h : SerialInv cfg s) {call : ThinkResult} {left : List ThinkResult} {retries : ℕ}
    (hpc : s.pc = .woken call left retries) :
    SerialInv cfg { s with rounds := editLast (·.again) s.rounds, pc := .executing call left (some retries) } := by
  have hfits := h.fits
  rw [hpc] at hfits
  obtain ⟨⟨front, rd, done, hrounds, hbegun, hlisted⟩, hless⟩ := hfits
  have hsound : rd.Sound cfg := h.sound rd (by rw [hrounds]; exact List.mem_append_right _ List.mem_cons_self)
  have hagain : rd.again.begun = done ++ [(call, retries + 2)] := by
    rw [SerialRound.again, hbegun, List.dropLast_concat, List.getLast?_concat]
    rfl
  have hmap : rd.again.begun.map Prod.fst = rd.begun.map Prod.fst := by
    rw [hagain, hbegun, List.map_append, List.map_append]
    rfl
  have hlisted' : rd.again.listed = rd.again.begun.map Prod.fst ++ left := by
    rw [hmap]
    exact hlisted
  have hmem_begun : ∀ c n, (c, n) ∈ rd.again.begun → (c, n) ∈ rd.begun ∨ (c = call ∧ n = retries + 2) := by
    intro c n hmem
    rw [hagain] at hmem
    obtain hmem | hmem := List.mem_append.mp hmem
    · left
      rw [hbegun]
      exact List.mem_append_left _ hmem
    · exact .inr (Prod.mk.inj (List.mem_singleton.mp hmem))
  rw [hrounds, editLast_append]
  refine h.edit hrounds rfl ⟨⟨left, hlisted'.symm⟩, ?_, ?_⟩ rfl ⟨⟨front, rd.again, done, rfl, hagain, hlisted'⟩, hless⟩
    (by rw [hpc]; rfl) rfl
  · intro c n hmem
    obtain hmem | ⟨rfl, -⟩ := hmem_begun c n hmem
    · exact hsound.callable c n hmem
    · refine hsound.callable c (retries + 1) ?_
      rw [hbegun]
      exact List.mem_append_right _ List.mem_cons_self
  · intro c n hmem
    obtain hmem | ⟨-, rfl⟩ := hmem_begun c n hmem
    · exact hsound.often c n hmem
    · omega

/-- The answer of the kernel is recorded. -/
theorem SerialInv.recorded_thought (h : SerialInv cfg s) {first : ThinkResult} {rest : List ThinkResult}
    (hpc : s.pc = .recording (first :: rest)) :
    SerialInv cfg { s.emit (thoughtEvent first (first :: rest)) with
      rounds := s.rounds ++ [⟨first :: rest, []⟩], pc := .acting (first :: rest) } where
  thoughts := by
    show (s.log ++ [thoughtEvent first (first :: rest)]).filter isThought = _
    rw [List.filter_append, List.filterMap_append, h.thoughts]
    rfl
  recorded := by
    intro r hr
    obtain hr | hr := List.mem_append.mp hr
    · exact h.recorded r hr
    · rw [List.mem_singleton.mp hr]
      exact List.cons_ne_nil first rest
  count := by
    have hcount := h.count
    rw [hpc] at hcount
    show (s.rounds ++ [_]).length + 0 ≤ s.iteration
    rw [List.length_append, List.length_singleton]
    exact hcount
  budget := h.budget
  sound := by
    intro r hr
    obtain hr | hr := List.mem_append.mp hr
    · exact h.sound r hr
    · rw [List.mem_singleton.mp hr]
      exact ⟨List.nil_prefix, fun _ _ hmem => absurd hmem List.not_mem_nil, fun _ _ hmem => absurd hmem List.not_mem_nil⟩
  fits := ⟨s.rounds, ⟨first :: rest, []⟩, rfl, rfl⟩
  streak := h.streak
  bounded := h.bounded
  below := fun _ => h.below (by rw [hpc]; rfl)
  closed := fun hclose => (h.closed (hclose.imp_left fun hf => absurd hf Bool.false_ne_true)).imp_right
    fun ⟨q, hq, hterminal⟩ => ⟨q, List.mem_append_left _ hq, hterminal⟩

/-- The head of an iteration. -/
theorem SerialInv.beginIteration (h : SerialInv cfg s) (hpc : s.pc = .head) : SerialInv cfg (s.beginIteration cfg) := by
  rw [SerialRun.beginIteration]
  split_ifs with hbudget hcancel
  · exact h.failRun _
  · exact h.failRun _
  · exact {
      thoughts := h.thoughts
      recorded := h.recorded
      count := by
        have hcount := h.count
        show s.rounds.length + 1 ≤ s.iteration + 1
        omega
      budget := by
        show s.iteration + 1 ≤ _
        omega
      sound := h.sound
      fits := trivial
      streak := h.streak
      bounded := h.bounded
      below := fun _ => h.below (by rw [hpc]; rfl)
      closed := fun hclose => h.closed (hclose.imp_left fun hf => absurd hf Bool.false_ne_true) }

/-- `_fail` writes its event. -/
theorem SerialInv.failWrite (h : SerialInv cfg s) {error : String} {next : SerialPc}
    (hpc : s.pc = .failWriting error next) (p : RunFailedPayload) :
    SerialInv cfg { s.emit (.runFailed p) with cancelFlag := true, pc := next } := by
  have hemit := h.emit (show isThought (.runFailed p) = false from rfl)
  have hfits := h.fits
  have hbelow := h.below
  rw [hpc] at hfits hbelow
  obtain ⟨hpending, hfits⟩ := hfits
  exact { hemit with
    count := by
      have hcount := h.count
      rw [hpc] at hcount
      show s.rounds.length + next.pending ≤ s.iteration
      rw [hpending]
      exact hcount
    fits := hfits
    below := hbelow
    closed := fun _ => .inr ⟨.runFailed p, List.mem_append_right _ List.mem_cons_self, rfl⟩ }

/-- The loop goes on by itself. -/
theorem SerialInv.tick (h : SerialInv cfg s) (hstep : s.tick cfg = some t) : SerialInv cfg t := by
  have hfits := h.fits
  rw [SerialRun.tick] at hstep
  split at hstep
  · rename_i hpc
    obtain rfl := Option.some.inj hstep
    exact h.beginIteration hpc
  · rename_i hpc
    obtain rfl := Option.some.inj hstep
    exact h.goto (by rw [hpc]; exact le_refl 1) trivial (fun _ => by rw [hpc]; rfl)
      (fun hterminal => .inr (exists_terminal_of_status hterminal))
  · rename_i status hpc
    obtain rfl := Option.some.inj hstep
    have hclosed : status.isTerminal = true → s.Closed := fun hterminal =>
      h.closed (.inl (by rw [hpc]; exact hterminal))
    split_ifs with hterminal hpaused
    · exact h.goto (Nat.zero_le _) trivial (fun hgoes => absurd hgoes Bool.false_ne_true) (fun _ => hclosed hterminal)
    · exact h.goto (by rw [hpc]; exact le_refl 1) trivial (fun _ => by rw [hpc]; rfl)
        (fun hclose => absurd hclose Bool.false_ne_true)
    · exact h.goto (by rw [hpc]; exact le_refl 1) trivial (fun _ => by rw [hpc]; rfl)
        (fun hclose => absurd hclose Bool.false_ne_true)
  · rename_i hpc
    obtain rfl := Option.some.inj hstep
    split_ifs with hterminal
    · exact h.goto (Nat.zero_le _) trivial (fun hgoes => absurd hgoes Bool.false_ne_true)
        (fun _ => .inr (exists_terminal_of_status hterminal))
    · exact h.goto (by rw [hpc]; exact le_refl 1) trivial (fun _ => by rw [hpc]; rfl)
        (fun hclose => absurd hclose Bool.false_ne_true)
  · obtain rfl := Option.some.inj hstep
    exact h.failRun _
  · rename_i first rest hpc
    obtain rfl := Option.some.inj hstep
    exact h.recorded_thought hpc
  · rename_i hpc
    obtain rfl := Option.some.inj hstep
    exact h.goto (Nat.zero_le _) trivial (fun _ => by rw [hpc]; rfl) (fun hclose => absurd hclose Bool.false_ne_true)
  · rename_i r left hpc
    obtain rfl := Option.some.inj hstep
    exact h.actOn hpc
  · rename_i call left retries hpc
    rw [hpc] at hfits
    split_ifs at hstep with hmax
    · obtain rfl := Option.some.inj hstep
      exact h.failRun _
    · obtain rfl := Option.some.inj hstep
      exact (h.emit (show isThought (.runPaused "waiting_confirmation") = false from rfl)).goto (Nat.zero_le _)
        ⟨hfits, not_le.mp hmax⟩ (fun _ => by show s.pc.goesOn = true; rw [hpc]; rfl)
        (fun hclose => absurd hclose Bool.false_ne_true)
  · rename_i call left retries hpc
    split_ifs at hstep with hcancel hterminal
    · obtain rfl := Option.some.inj hstep
      exact h.goto (Nat.zero_le _) trivial (fun hgoes => absurd hgoes Bool.false_ne_true)
        (fun _ => h.closed (.inr hcancel))
    · obtain rfl := Option.some.inj hstep
      exact h.goto (Nat.zero_le _) trivial (fun hgoes => absurd hgoes Bool.false_ne_true)
        (fun _ => .inr (exists_terminal_of_status hterminal))
    · obtain rfl := Option.some.inj hstep
      exact h.again hpc
  · rename_i error next hpc
    obtain rfl := Option.some.inj hstep
    rw [hpc] at hfits
    have hgoes : next.goesOn = true → s.pc.goesOn = true := fun hnext => by rw [hpc]; exact hnext
    split_ifs with hterminal
    · exact h.goto (by rw [hfits.1]; exact Nat.zero_le _) hfits.2 hgoes
        (fun _ => .inr (exists_terminal_of_status hterminal))
    · exact h.goto (Nat.zero_le _) hfits hgoes (fun hclose => absurd hclose Bool.false_ne_true)
  · rename_i error next hpc
    obtain rfl := Option.some.inj hstep
    exact h.failWrite hpc _
  · cases hstep

/-- What a call under way says about the last iteration. -/
theorem openAt_of_executing {rounds : List SerialRound} {call : ThinkResult} {left : List ThinkResult}
    {retries : Option ℕ} (h : (SerialPc.executing call left retries).Fits cfg rounds) :
    OpenAt rounds call left (retries.elim 0 (· + 1) + 1) := by
  cases retries with
  | none => exact h
  | some n => exact h.1

/-- **Every step keeps the invariant.** -/
theorem SerialInv.step (h : SerialInv cfg s) {m : SerialMove} (hstep : serialLoopStep cfg s m = some t) :
    SerialInv cfg t := by
  have hfits := h.fits
  cases m with
  | tick => exact h.tick hstep
  | wake =>
      rw [serialLoopStep] at hstep
      split at hstep
      · rename_i hpc
        obtain rfl := Option.some.inj hstep
        exact h.goto (by rw [hpc]; exact le_refl 1) trivial (fun _ => by rw [hpc]; rfl)
          (fun hclose => absurd hclose Bool.false_ne_true)
      · rename_i call left retries hpc
        obtain rfl := Option.some.inj hstep
        rw [hpc] at hfits
        exact h.goto (Nat.zero_le _) hfits (fun _ => by rw [hpc]; rfl)
          (fun hclose => absurd hclose Bool.false_ne_true)
      · cases hstep
  | waitTimeout =>
      rw [serialLoopStep] at hstep
      split at hstep
      · rename_i hpc
        obtain rfl := Option.some.inj hstep
        exact h.goto (by rw [hpc]; exact le_refl 1) trivial (fun _ => by rw [hpc]; rfl)
          (fun hclose => absurd hclose Bool.false_ne_true)
      · rename_i call left retries hpc
        obtain rfl := Option.some.inj hstep
        rw [hpc] at hfits
        split_ifs
        · exact h.goto (Nat.zero_le _) hfits (fun _ => by rw [hpc]; rfl)
            (fun hclose => absurd hclose Bool.false_ne_true)
        · exact h.goto (Nat.zero_le _) ⟨rfl, hfits⟩ (fun _ => by rw [hpc]; rfl)
            (fun hclose => absurd hclose Bool.false_ne_true)
      · cases hstep
  | thought results =>
      rw [serialLoopStep] at hstep
      split at hstep
      · rename_i hpc
        obtain rfl := Option.some.inj hstep
        exact h.goto (by rw [hpc]; exact le_refl 1) trivial (fun _ => by rw [hpc]; rfl)
          (fun hclose => absurd hclose Bool.false_ne_true)
      · cases hstep
  | executed status =>
      rw [serialLoopStep] at hstep
      split at hstep
      · rename_i call left retries hpc
        obtain rfl := Option.some.inj hstep
        rw [hpc] at hfits
        have hopen := openAt_of_executing hfits
        have hgoes : s.pc.goesOn = true := by rw [hpc]; rfl
        cases status with
        | completed => exact h.succeeded hopen
        | idempotencyHit => exact h.succeeded hopen
        | confirmationNeeded =>
            exact h.goto (Nat.zero_le _) hopen (fun _ => hgoes) (fun hclose => absurd hclose Bool.false_ne_true)
        | failed => exact h.failed hopen hgoes
        | timeout => exact h.failed hopen hgoes
        | guardrailBlocked => exact h.failed hopen hgoes
      · cases hstep
  | executeTimeout =>
      rw [serialLoopStep] at hstep
      split at hstep
      · rename_i call left retries hpc
        obtain rfl := Option.some.inj hstep
        cases retries <;> exact h.failRun _
      · cases hstep
  | executeRaised text =>
      rw [serialLoopStep] at hstep
      split at hstep
      · rename_i call left retries hpc
        obtain rfl := Option.some.inj hstep
        rw [hpc] at hfits
        cases retries with
        | none => exact h.failed (openAt_of_executing hfits) (by rw [hpc]; rfl)
        | some n => exact h.failRun _
      · cases hstep
  | escape text =>
      rw [serialLoopStep] at hstep
      split_ifs at hstep
      obtain rfl := Option.some.inj hstep
      exact h.failRun _
  | watchdog =>
      rw [serialLoopStep] at hstep
      split_ifs at hstep
      obtain rfl := Option.some.inj hstep
      exact h.failRun _
  | cancel =>
      obtain rfl := Option.some.inj hstep
      exact { h with closed := fun _ => .inl rfl }
  | note p =>
      rw [serialLoopStep] at hstep
      split_ifs at hstep with hp
      obtain rfl := Option.some.inj hstep
      exact h.emit (decide_eq_false hp)

theorem SerialInv.start {log : List Payload} (hlog : log.filter isThought = []) : SerialInv cfg (.start log) where
  thoughts := hlog
  recorded := fun _ hr => absurd hr List.not_mem_nil
  count := le_refl 0
  budget := Nat.zero_le _
  sound := fun _ hr => absurd hr List.not_mem_nil
  fits := trivial
  streak := rfl
  bounded := Bounded.nil _
  below := fun _ => .inl rfl
  closed := fun hclose => hclose.elim (fun hf => absurd hf Bool.false_ne_true) (fun hf => absurd hf Bool.false_ne_true)

end steps

/-- What holds of a run of the loop. -/
structure SerialRun.Kept (cfg : SerialConfig) (s : SerialRun) : Prop where
  /-- There are no more thoughts than the budget allows, and each is that of an iteration. -/
  thoughts : s.log.filter isThought = s.rounds.filterMap SerialRound.event ∧
    (s.log.filter isThought).length ≤ cfg.runAttemptBudget
  /-- What was called of an iteration was listed before, in this order, and none more often than allowed. -/
  calls : ∀ r ∈ s.rounds, r.Sound cfg
  /-- Nowhere do more calls in a row fail than the breaker allows. -/
  breaker : Bounded (fun b => b) cfg.runAttemptBudget s.outcomes
  /-- The loop does not end without a terminal event, unless it was cancelled. -/
  ended : s.pc = .ended → s.Closed

/-- **Every run of the serial loop keeps its budgets**, whatever the kernel, the tools, the operator and the other
components do. -/
theorem serial_run (cfg : SerialConfig) {log : List Payload} (hlog : log.filter isThought = []) {s : SerialRun}
    (h : Reaches (serialLoopStep cfg) (.start log) s) : s.Kept cfg := by
  have hinv : SerialInv cfg s := h.invariant (SerialInv.start hlog) (fun t u m _ ht hstep => ht.step hstep)
  refine ⟨⟨hinv.thoughts, ?_⟩, hinv.sound, hinv.bounded, fun hpc => hinv.closed (.inl (by rw [hpc]; rfl))⟩
  have hlength : (s.rounds.filterMap SerialRound.event).length ≤ s.rounds.length := List.length_filterMap_le _ _
  have hcount := hinv.count
  have hbudget := hinv.budget
  rw [hinv.thoughts]
  omega

/-! ### A call that waits for its confirmation -/

/-- One tool, and a single repetition after a confirmation. -/
def oneTool : SerialConfig := { runAttemptBudget := 1, maxConfirmRetries := 1, toolDefs := ["wipe"], toolFns := ["wipe"] }

/-- The call that the kernel lists. -/
def wipeCall : ThinkResult := { thought := "clean up", toolName := some "wipe" }

/-- The call is confirmed and then fails, which trips the breaker. -/
def confirmedFailure : List SerialMove :=
  [.tick, .tick, .tick, .thought [wipeCall], .tick, .tick, .executed .confirmationNeeded, .tick,
   .note (.runResumed 3), .wake, .tick, .executed .failed, .tick, .tick]

/-- The loop ends by its breaker, and has kept its budgets. -/
theorem confirmed_failure_kept : ∃ s,
    Reaches (serialLoopStep oneTool) (.start [.runStarted { intent := "clean up" }]) s ∧ s.pc.hasEnded = true ∧
      s.outcomes = [true] ∧ s.Kept oneTool := by
  have hrun : (Lib.run (serialLoopStep oneTool) confirmedFailure (.start [.runStarted { intent := "clean up" }])).any
      (fun s => s.pc.hasEnded && decide (s.outcomes = [true])) = true := by decide +kernel
  obtain ⟨s, hs, hp⟩ := (Option.any_eq_true _ _).mp hrun
  rw [Bool.and_eq_true] at hp
  exact ⟨s, reaches_of_run hs, hp.1, of_decide_eq_true hp.2, serial_run oneTool (by decide) (reaches_of_run hs)⟩

end JAgent
