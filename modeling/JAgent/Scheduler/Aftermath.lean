import JAgent.Core.Status
import JAgent.Tools.Flights

/-! # After the end of a run

The step tasks of a run next to everything that can end it.  A layer is gathered: each of its steps
waits for the global semaphore and for that of its tool, and is then inside `execute`, where the
tool function of a Skill makes calls of its own.  Meanwhile `delete_run` sets the cancel flag and
appends RunFailed, the watchdog cancels the loop and its tasks and fails the run, and the loop ends
the run itself.

The cancel flag is looked at between two layers only, and `execute` appends Tool called without
looking whether the run has ended (`_append_run_event` would look).  So a deletion in the middle of
a layer is followed by the calls of its waiting steps (`deleted_run_calls_on`).  The ends that the
loop and the watchdog write come after the last task; a deletion that comes when nothing is left
that could call a tool is the last word as well (`nothing_called_after_end`). -/

namespace JAgent

/-- A step that a layer executes. -/
structure LayerStep (W : Type) where
  call : Call W
  /-- Its tool is a Skill. -/
  skill : Bool := false

/-- The next action of a step task. -/
inductive TaskPc (W : Type) where
  /-- Waiting for the global semaphore. -/
  | queued
  /-- Holding the global semaphore, waiting for that of the tool. -/
  | admitted
  /-- Inside `execute`; `inner` are the calls its tool function has made. -/
  | inside (p : Proc W) (inner : List (Proc W))
  /-- Returned, or cancelled. -/
  | done

structure StepTask (W : Type) where
  step : LayerStep W
  pc : TaskPc W

/-- Where the loop is. -/
inductive RunLoopPc (W : Type) where
  /-- `run` has not been entered. -/
  | starting
  /-- The next iteration reads the log. -/
  | reading
  /-- Between two layers, before the cancel flag is looked at. -/
  | atHead
  /-- A confirmed step is to be retried: the log is read first. -/
  | rereading (layer : List (LayerStep W))
  /-- The flag was clear; the context is compressed and the start of the steps recorded. -/
  | preparing (layer : List (LayerStep W))
  /-- `gather` waits for the tasks. -/
  | gathering
  /-- `_complete` or `_fail` reads the log. -/
  | closing (p : Payload)
  /-- `_complete` or `_fail` appends. -/
  | appending (p : Payload)
  | ended

/-- The next action of a `delete_run` request. -/
inductive DeletePc where
  | reading
  | cancelling (eventCount : ℕ)
  | appending (eventCount : ℕ)
  | cleaning
  | done

/-- Where the watchdog is. -/
inductive WatchdogPc where
  | idle
  /-- The loop and the tasks are being cancelled. -/
  | cancelling
  /-- `_fail` reads the log. -/
  | checking
  /-- `_fail` appends. -/
  | appending (eventCount : ℕ)
  | done
deriving DecidableEq

/-- The settings of the scheduler and the executor. -/
structure LayerLimits where
  maxParallel : ℕ := 10
  /-- `max_parallel` of each tool. -/
  toolLimit : String → ℕ := fun _ => 10
  /-- No watchdog if `0`. -/
  runTimeoutMs : ℕ

/-- A run with its tasks and what may end it. -/
structure LayerRun (W : Type) where
  shared : Shared W
  /-- The cancel flag, while it exists. -/
  cancelFlag : Option Bool := none
  /-- The scheduler is in the registry of the API. -/
  registered : Bool := true
  loop : RunLoopPc W := .starting
  tasks : List (StepTask W) := []
  watchdog : WatchdogPc := .idle
  deletes : List DeletePc := []

/-- What happens next. -/
inductive RunMove (W : Type) where
  /-- The loop takes its next action. -/
  | tick
  /-- `_is_run_terminal` cannot read the log. -/
  | unread
  /-- The loop looks at the flag to start a layer, or to retry a confirmed step. -/
  | look (layer : List (LayerStep W)) (retry : Bool)
  /-- The loop goes on with its next iteration. -/
  | turn
  /-- The loop is about to end the run. -/
  | conclude (p : Payload)
  /-- A task takes its next action. -/
  | task (i : ℕ)
  /-- The tool function of a task calls a tool. -/
  | nest (i : ℕ) (c : Call W)
  /-- A call made by the tool function of a task takes its next action. -/
  | inner (i j : ℕ)
  /-- The run has used up its time. -/
  | timeout
  /-- A task is cancelled. -/
  | abort (i : ℕ)
  /-- The watchdog takes its next action. -/
  | watch
  /-- `delete_run` is requested. -/
  | delete
  /-- A request takes its next action. -/
  | deleting (i : ℕ)
  /-- `run` removes its flag and is removed from the registry. -/
  | leave
  /-- Another component appends an event. -/
  | note (p : Payload)
  | outside (w : W)

/-- The call may still append Tool called. -/
def CallPc.mayCall : CallPc → Bool
  | .guarding | .looking _ | .requesting | .answering _ | .calling => true
  | _ => false

/-- The tool function is running. -/
def CallPc.inTool : CallPc → Bool
  | .invoking _ => true
  | _ => false

def Payload.isToolCalled : Payload → Bool
  | .toolCalled _ => true
  | _ => false

namespace StepTask
variable {W : Type} (t : StepTask W)

/-- The task holds the global semaphore. -/
def holdsGlobal : Bool := match t.pc with
  | .admitted | .inside .. => true
  | _ => false

/-- The task holds the semaphore of the tool. -/
def holdsTool (toolName : String) : Bool := match t.pc with
  | .inside .. => t.step.call.toolName = toolName
  | _ => false

def isDone : Bool := match t.pc with
  | .done => true
  | _ => false

/-- Neither the call of the task nor one of its tool function can append Tool called any more. -/
def spent : Bool := match t.pc with
  | .queued | .admitted => false
  | .inside p _ => !p.pc.mayCall && !(t.step.skill && p.pc.inTool)
  | .done => true

end StepTask

namespace LayerRun
variable {W : Type} (s : LayerRun W)

/-- The events of the run. -/
def events : List Payload := s.shared.log.map Row.payload

def emit (p : Payload) : LayerRun W :=
  { s with shared := { s.shared with log := s.shared.log.appendEvent p } }

/-- `flag.set()` if the flag exists. -/
def setFlag : LayerRun W := { s with cancelFlag := s.cancelFlag.map fun _ => true }

def cancelled : Bool := s.cancelFlag = some true

/-- A task goes on. -/
def goto (i : ℕ) (t : StepTask W) (pc : TaskPc W) : LayerRun W :=
  { s with tasks := s.tasks.set i { t with pc } }

/-- The event of a run that fails after `eventCount` events, without its texts for the user. -/
def failure (finalError : String) (eventCount : ℕ) : Payload :=
  .runFailed { finalError, eventCount }

/-- `_fail` and `_complete` append; only `_fail` sets the flag. -/
def close (p : Payload) : LayerRun W := match p with
  | .runFailed _ => (s.emit p).setFlag
  | _ => s.emit p

/-- The next action of the loop. -/
def tick : Option (LayerRun W) := match s.loop with
  | .starting => some { s with loop := .reading, cancelFlag := some false }
  | .reading =>
    if (statusOf s.events).isTerminal then some { s with loop := .ended }
    else some { s with loop := .atHead }
  | .atHead => none
  | .rereading layer =>
    if (statusOf s.events).isTerminal then some { s with loop := .ended }
    else some { s with loop := .preparing layer }
  | .preparing layer =>
    some { s with loop := .gathering, tasks := s.tasks ++ layer.map fun step => ⟨step, .queued⟩ }
  | .gathering => if s.tasks.all StepTask.isDone then some { s with loop := .atHead } else none
  | .closing p =>
    if (statusOf s.events).isTerminal then some { s with loop := .ended }
    else some { s with loop := .appending p }
  | .appending p => some { s.close p with loop := .ended }
  | .ended => none

/-- The next action of a deletion. -/
def deleting (i : ℕ) : DeletePc → Option (LayerRun W)
  | .reading =>
    if s.shared.log.isEmpty then some { s with deletes := s.deletes.set i .done }
    else some { s with deletes := s.deletes.set i (.cancelling s.shared.log.length) }
  | .cancelling n =>
    let s := if s.registered then s.setFlag else s
    some { s with deletes := s.deletes.set i (.appending n) }
  | .appending n =>
    some { s.emit (failure "Run deleted by user" n) with deletes := s.deletes.set i .cleaning }
  | .cleaning => some { s with registered := false, deletes := s.deletes.set i .done }
  | .done => none

/-- The next action of the watchdog. -/
def watch (l : LayerLimits) : Option (LayerRun W) := match s.watchdog with
  | .idle | .done => none
  | .cancelling =>
    -- a cancelled `gather` waits for its tasks, and `wait_for` for the loop
    if s.tasks.all StepTask.isDone then some { s with loop := .ended, watchdog := .checking }
    else none
  | .checking =>
    if (statusOf s.events).isTerminal then some { s with watchdog := .done }
    else some { s with watchdog := .appending s.shared.log.length }
  | .appending n =>
    some { s.close (failure ("Run timed out after " ++ toString l.runTimeoutMs ++ "ms (watchdog)") n) with
      watchdog := .done }

end LayerRun

namespace ToolExecutor
variable {W : Type} [Py] (x : ToolExecutor W) (l : LayerLimits)

/-- The next action of a task. -/
def taskStep (s : LayerRun W) (i : ℕ) (t : StepTask W) : Option (LayerRun W) := match t.pc with
  | .queued =>
    if s.tasks.countP StepTask.holdsGlobal < l.maxParallel then some (s.goto i t .admitted) else none
  | .admitted =>
    let name := t.step.call.toolName
    if s.tasks.countP (fun t => t.holdsTool name) < max 1 (l.toolLimit name) then
      some (s.goto i t (.inside (start t.step.call) []))
    else none
  | .inside p _ =>
    if p.pc.finished then some (s.goto i t .done)
    else
      -- when the tool function returns or times out, the calls it made have ended with it
      let (p, shared) := x.stepCall p s.shared
      some { s.goto i t (.inside p []) with shared }
  | .done => none

/-- The tool function of a task calls a tool. -/
def nestStep (s : LayerRun W) (i : ℕ) (t : StepTask W) (c : Call W) : Option (LayerRun W) :=
  match t.pc with
  | .inside p inner =>
    if t.step.skill && p.pc.inTool then some (s.goto i t (.inside p (inner ++ [start c]))) else none
  | _ => none

/-- A call made by the tool function of a task takes its next action. -/
def innerStep (s : LayerRun W) (i : ℕ) (t : StepTask W) (j : ℕ) : Option (LayerRun W) :=
  match t.pc with
  | .inside p inner => match inner[j]? with
    | none => none
    | some q =>
      if q.pc.finished then none
      else
        let (q, shared) := x.stepCall q s.shared
        some { s.goto i t (.inside p (inner.set j q)) with shared }
  | _ => none

/-- One move. -/
def layerStep (s : LayerRun W) : RunMove W → Option (LayerRun W)
  | .tick => s.tick
  | .unread => match s.loop with
    | .closing p => some { s with loop := .appending p }
    | _ => none
  | .look layer retry => match s.loop with
    | .atHead =>
      if s.cancelled then
        some { s with loop := .closing (LayerRun.failure "Run cancelled by user" s.shared.log.length) }
      else if retry then some { s with loop := .rereading layer }
      else some { s with loop := .preparing layer }
    | _ => none
  | .turn => match s.loop with
    | .atHead => some { s with loop := .reading }
    | _ => none
  | .conclude p => match s.loop with
    | .atHead => if p.isTerminal then some { s with loop := .closing p } else none
    | _ => none
  | .task i => match s.tasks[i]? with
    | some t => x.taskStep l s i t
    | none => none
  | .nest i c => match s.tasks[i]? with
    | some t => nestStep s i t c
    | none => none
  | .inner i j => match s.tasks[i]? with
    | some t => x.innerStep s i t j
    | none => none
  | .timeout =>
    if l.runTimeoutMs ≠ 0 ∧ s.watchdog = .idle ∧ s.cancelFlag.isSome then
      some { s with watchdog := .cancelling }
    else none
  | .abort i => match s.tasks[i]? with
    | some t => if s.watchdog = .cancelling then some (s.goto i t .done) else none
    | none => none
  | .watch => s.watch l
  | .delete => some { s with deletes := s.deletes ++ [.reading] }
  | .deleting i => match s.deletes[i]? with
    | some pc => s.deleting i pc
    | none => none
  | .leave => match s.loop with
    | .ended =>
      if s.watchdog = .idle ∨ s.watchdog = .done then
        some { s with cancelFlag := none, registered := false }
      else none
    | _ => none
  | .note p =>
    if p.isTerminal || p.eventType = .tool then none else some (s.emit p)
  | .outside w => some { s with shared := { s.shared with world := w } }

end ToolExecutor

/-- A run that has been started and whose loop is about to begin. -/
def LayerRun.start {W : Type} (p : RunStartedPayload) (w : W) : LayerRun W :=
  { shared := { log := [{ payload := .runStarted p }], world := w } }

/-! ### No call after the end -/

/-- No Tool called event comes after an event that ends the run. -/
def QuietAfterEnd (log : List Payload) : Prop :=
  ∀ pre p post, log = pre ++ p :: post → p.isTerminal = true → ∀ q ∈ post, q.isToolCalled = false

/-- Appending keeps the log quiet if the run has not ended or no tool is called. -/
theorem QuietAfterEnd.append {log : List Payload} {q : Payload} (h : QuietAfterEnd log)
    (hq : q.isToolCalled = true → log.any Payload.isTerminal = false) :
    QuietAfterEnd (log ++ [q]) := by
  intro pre p post heq hp r hr
  rcases Lib.entry_of_append heq with ⟨_, _, rfl⟩ | ⟨rest, rfl, hlog⟩
  · cases hr
  rw [List.mem_append, List.mem_singleton] at hr
  rcases hr with hr | rfl
  · exact h pre p rest hlog hp r hr
  · by_contra hcall
    have hany := hq (by simpa using hcall)
    rw [List.any_eq_false] at hany
    exact hany p (by rw [hlog]; simp) hp

namespace RunLoopPc
variable {W : Type} (cancelled : Bool)

/-- The loop prepares no layer and, if it goes on, finds the flag set or reads the log first. -/
def rests : RunLoopPc W → Bool
  | .preparing _ => false
  | .atHead | .gathering => cancelled
  | _ => true

/-- Only the recorded status keeps the loop from going on. -/
def relies : RunLoopPc W → Bool
  | .starting | .rereading _ => true
  | .reading => !cancelled
  | _ => false

end RunLoopPc

namespace LayerRun
variable {W : Type} (s : LayerRun W)

/-- The run has ended. -/
def hasEnded : Bool := s.events.any Payload.isTerminal

/-- Nothing is left that could call a tool. -/
def stopped : Bool := s.tasks.all StepTask.spent && s.loop.rests s.cancelled

end LayerRun

/-- A deletion appends its RunFailed when nothing is left that could call a tool, and once the run
has ended nothing moves its status while the loop relies on it. -/
def endsWhenStopped {W : Type} (s : LayerRun W) : RunMove W → Bool
  | .deleting i => match s.deletes[i]? with
    | some (.appending _) => s.hasEnded || s.stopped
    | _ => true
  | .note p => !(s.hasEnded && s.loop.relies s.cancelled && (statusChange p).isSome)
  | _ => true

/-! ### What the moves of a task can do -/

/-- A task has calls of its tool function only while a Skill runs. -/
def StepTask.innerOk {W : Type} (t : StepTask W) : Bool := match t.pc with
  | .inside p inner => inner.isEmpty || (t.step.skill && p.pc.inTool)
  | _ => true

/-- A task has moved from `t` to `t'` and may have appended one event. -/
structure TaskMoved {W : Type} (s : LayerRun W) (i : ℕ) (t t' : StepTask W) (u : LayerRun W) : Prop where
  same : ∃ shared, u = { s with tasks := s.tasks.set i t', shared }
  events : u.events = s.events ∨ ∃ q, u.events = s.events ++ [q] ∧ statusChange q = none ∧
    (q.isToolCalled = true → t.spent = false)
  spent : t.spent = true → t'.spent = true
  isDone : t.isDone = true → t'.isDone = true
  innerOk : t'.innerOk = true

namespace ToolExecutor
variable {W : Type} [Py] (x : ToolExecutor W) {l : LayerLimits}

/-- **What a call appends**: nothing that moves the status of the run, and Tool called only right
before the tool function is invoked. -/
theorem stepCall_appends (p : Proc W) (s : Shared W) :
    (x.stepCall p s).2.log = s.log ∨ ∃ row, (x.stepCall p s).2.log = s.log ++ [row] ∧
      statusChange row.payload = none ∧ (row.payload.isToolCalled = true → p.pc = .calling) := by
  obtain ⟨c, tid, pc⟩ := p
  cases pc with
  | asking | recording =>
      simp only [stepCall, Log.appendKeyed, Log.appendEvent]
      repeat' split
      all_goals first
        | exact .inl rfl
        | exact .inr ⟨_, rfl, rfl, by simp [Payload.isToolCalled]⟩
  | calling => exact .inr ⟨_, rfl, rfl, fun _ => rfl⟩
  | _ =>
      unfold stepCall goto emit
      dsimp only
      repeat' split
      all_goals first
        | exact .inl rfl
        | exact .inr ⟨_, rfl, rfl, by simp [Payload.isToolCalled]⟩

/-- A call that cannot append Tool called any more never can. -/
theorem mayCall_stepCall {p : Proc W} {s : Shared W} (h : p.pc.mayCall = false) :
    (x.stepCall p s).1.pc.mayCall = false ∧
      ((x.stepCall p s).1.pc.inTool = true → p.pc.inTool = true) := by
  obtain ⟨c, tid, pc⟩ := p
  cases pc with
  | invoking attempt =>
      refine ⟨?_, fun _ => rfl⟩
      simp only [stepCall, afterInvoke, afterOutput]
      repeat' split
      all_goals rfl
  | guarding | looking | requesting | answering | calling => cases h
  | _ =>
      simp only [stepCall, goto, emit]
      repeat' split
      all_goals exact ⟨rfl, fun h => h⟩

/-- The events after an action of a call. -/
theorem events_stepCall (s : LayerRun W) (p : Proc W) (tasks : List (StepTask W)) {t : StepTask W}
    (hcall : p.pc = .calling → t.spent = false) :
    LayerRun.events { s with tasks, shared := (x.stepCall p s.shared).2 } = s.events ∨
      ∃ q, LayerRun.events { s with tasks, shared := (x.stepCall p s.shared).2 } = s.events ++ [q] ∧
        statusChange q = none ∧ (q.isToolCalled = true → t.spent = false) := by
  rcases x.stepCall_appends p s.shared with heq | ⟨row, heq, hstatus, hcalled⟩
  · refine .inl ?_
    simp only [LayerRun.events, heq]
  · refine .inr ⟨row.payload, ?_, hstatus, fun h => hcall (hcalled h)⟩
    simp only [LayerRun.events, heq, List.map_append, List.map_cons, List.map_nil]

theorem moved_taskStep {s u : LayerRun W} {i : ℕ} {t : StepTask W}
    (h : x.taskStep l s i t = some u) : ∃ t', TaskMoved s i t t' u := by
  obtain ⟨step, pc⟩ := t
  cases pc with
  | queued =>
      simp only [taskStep] at h
      split_ifs at h
      obtain rfl := Option.some.inj h
      exact ⟨_, ⟨_, rfl⟩, .inl rfl, (fun h => by cases h), (fun h => by cases h), rfl⟩
  | admitted =>
      simp only [taskStep] at h
      split_ifs at h
      obtain rfl := Option.some.inj h
      exact ⟨_, ⟨_, rfl⟩, .inl rfl, (fun h => by cases h), (fun h => by cases h), rfl⟩
  | done => cases h
  | inside p inner =>
      simp only [taskStep] at h
      split_ifs at h
      · obtain rfl := Option.some.inj h
        exact ⟨_, ⟨_, rfl⟩, .inl rfl, fun _ => rfl, fun _ => rfl, rfl⟩
      · obtain rfl := Option.some.inj h
        refine ⟨_, ⟨_, rfl⟩, ?_, ?_, (fun h => by cases h), rfl⟩
        · apply x.events_stepCall s p _
          intro hpc
          simp [StepTask.spent, hpc, CallPc.mayCall]
        · intro hspent
          simp only [StepTask.spent, Bool.and_eq_true, Bool.not_eq_true'] at hspent ⊢
          obtain ⟨hmay, hin⟩ := x.mayCall_stepCall (s := s.shared) hspent.1
          refine ⟨hmay, ?_⟩
          have hskill := hspent.2
          rw [Bool.and_eq_false_iff] at hskill ⊢
          rcases hskill with hskill | hskill
          · exact .inl hskill
          · refine .inr ?_
            by_contra hnew
            rw [hin (by simpa using hnew)] at hskill
            cases hskill

omit [Py] in
theorem moved_nestStep {s u : LayerRun W} {i : ℕ} {t : StepTask W} {c : Call W}
    (h : nestStep s i t c = some u) : ∃ t', TaskMoved s i t t' u := by
  obtain ⟨step, pc⟩ := t
  cases pc with
  | inside p inner =>
      simp only [nestStep] at h
      split_ifs at h with hskill
      obtain rfl := Option.some.inj h
      refine ⟨_, ⟨_, rfl⟩, .inl rfl, fun h => h, (fun h => by cases h), ?_⟩
      simp only [StepTask.innerOk, hskill, Bool.or_true]
  | _ => cases h

theorem moved_innerStep {s u : LayerRun W} {i j : ℕ} {t : StepTask W} (hok : t.innerOk = true)
    (h : x.innerStep s i t j = some u) : ∃ t', TaskMoved s i t t' u := by
  obtain ⟨step, pc⟩ := t
  cases pc with
  | inside p inner =>
      simp only [innerStep] at h
      split at h
      · cases h
      next q hq =>
        split_ifs at h
        obtain rfl := Option.some.inj h
        -- the task has calls, so its tool function is running
        have hskill : (step.skill && p.pc.inTool) = true := by
          simp only [StepTask.innerOk, Bool.or_eq_true, List.isEmpty_iff] at hok
          rcases hok with rfl | hok
          · simp at hq
          · exact hok
        refine ⟨_, ⟨_, rfl⟩, ?_, fun h => h, (fun h => by cases h), ?_⟩
        · apply x.events_stepCall s q _
          intro _
          simp [StepTask.spent, hskill]
        · simp only [StepTask.innerOk, hskill, Bool.or_true]
  | _ => cases h

omit [Py] in
theorem moved_abort (s : LayerRun W) (i : ℕ) (t : StepTask W) :
    ∃ t', TaskMoved s i t t' (s.goto i t .done) :=
  ⟨_, ⟨_, rfl⟩, .inl rfl, fun _ => rfl, fun _ => rfl, rfl⟩

end ToolExecutor

/-! ### The invariants -/

def RunLoopPc.isGathering {W : Type} : RunLoopPc W → Bool
  | .gathering => true
  | _ => false

def RunLoopPc.isEnded {W : Type} : RunLoopPc W → Bool
  | .ended => true
  | _ => false

/-- What the loop is about to append ends the run. -/
def RunLoopPc.closes {W : Type} : RunLoopPc W → Bool
  | .closing p | .appending p => p.isTerminal
  | _ => true

/-- The watchdog has waited for the loop. -/
def WatchdogPc.reaped : WatchdogPc → Bool
  | .idle | .cancelling => false
  | _ => true

/-- Tasks are under way only while the loop gathers them. -/
structure LayerInv {W : Type} (s : LayerRun W) : Prop where
  done : s.loop.isGathering = false → ∀ t ∈ s.tasks, t.isDone = true
  inner : ∀ t ∈ s.tasks, t.innerOk = true
  reaped : s.watchdog.reaped = true → s.loop.isEnded = true
  closes : s.loop.closes = true

/-- Once the run has ended, nothing calls a tool. -/
structure AfterEnd {W : Type} (s : LayerRun W) : Prop where
  stopped : s.hasEnded = true → s.stopped = true
  status : s.hasEnded = true → s.loop.relies s.cancelled = true →
    (statusOf s.events).isTerminal = true
  quiet : QuietAfterEnd s.events

section invariants
variable {W : Type} {s u : LayerRun W}

theorem spent_of_isDone {t : StepTask W} (h : t.isDone = true) : t.spent = true := by
  obtain ⟨step, pc⟩ := t
  cases pc with
  | done => rfl
  | _ => cases h

theorem stopped_iff : s.stopped = true ↔
    (∀ t ∈ s.tasks, t.spent = true) ∧ s.loop.rests s.cancelled = true := by
  unfold LayerRun.stopped
  rw [Bool.and_eq_true, List.all_eq_true]

/-- Outside a layer every task is spent. -/
theorem LayerInv.spent (h : LayerInv s) (hg : s.loop.isGathering = false) :
    ∀ t ∈ s.tasks, t.spent = true :=
  fun t ht => spent_of_isDone (h.done hg t ht)

theorem hasEnded_append {q : Payload} (h : u.events = s.events ++ [q]) :
    u.hasEnded = (s.hasEnded || q.isTerminal) := by
  unfold LayerRun.hasEnded
  rw [h, List.any_append]
  simp

theorem statusOf_append_of_none {log : List Payload} {q : Payload} (h : statusChange q = none) :
    statusOf (log ++ [q]) = statusOf log := by
  rw [statusOf_append]
  unfold statusAfter
  rw [h]
  rfl

theorem isTerminal_eq_false_of_none {q : Payload} (h : statusChange q = none) :
    q.isTerminal = false := by
  by_contra hterm
  obtain ⟨st, hst, _⟩ := statusChange_of_isTerminal (by simpa using hterm)
  rw [h] at hst
  cases hst

theorem isTerminal_statusOf_append {log : List Payload} {q : Payload} (h : q.isTerminal = true) :
    (statusOf (log ++ [q])).isTerminal = true :=
  isTerminal_statusOf rfl h (by simp)

theorem LayerInv.moved {i : ℕ} {t t' : StepTask W} (h : LayerInv s) (ht : s.tasks[i]? = some t)
    (hm : TaskMoved s i t t' u) : LayerInv u := by
  obtain ⟨shared, rfl⟩ := hm.same
  refine ⟨?_, ?_, h.reaped, h.closes⟩
  · intro hg r hr
    rcases List.mem_or_eq_of_mem_set hr with hr | rfl
    · exact h.done hg r hr
    · exact hm.isDone (h.done hg t (List.mem_of_getElem? ht))
  · intro r hr
    rcases List.mem_or_eq_of_mem_set hr with hr | rfl
    · exact h.inner r hr
    · exact hm.innerOk

theorem AfterEnd.moved {i : ℕ} {t t' : StepTask W} (h : AfterEnd s) (ht : s.tasks[i]? = some t)
    (hm : TaskMoved s i t t' u) : AfterEnd u := by
  have hmem := List.mem_of_getElem? ht
  have hended : u.hasEnded = s.hasEnded := by
    rcases hm.events with heq | ⟨q, heq, hstatus, _⟩
    · unfold LayerRun.hasEnded
      rw [heq]
    · rw [hasEnded_append heq, isTerminal_eq_false_of_none hstatus, Bool.or_false]
  have hstatus : statusOf u.events = statusOf s.events := by
    rcases hm.events with heq | ⟨q, heq, hstatus, _⟩
    · rw [heq]
    · rw [heq, statusOf_append_of_none hstatus]
  have hloop : u.loop = s.loop ∧ u.cancelled = s.cancelled := by
    obtain ⟨shared, rfl⟩ := hm.same
    exact ⟨rfl, rfl⟩
  refine ⟨?_, ?_, ?_⟩
  · intro hu
    rw [hended] at hu
    have hs := stopped_iff.mp (h.stopped hu)
    rw [stopped_iff, hloop.1, hloop.2]
    refine ⟨?_, hs.2⟩
    obtain ⟨shared, rfl⟩ := hm.same
    intro r hr
    rcases List.mem_or_eq_of_mem_set hr with hr | rfl
    · exact hs.1 r hr
    · exact hm.spent (hs.1 t hmem)
  · intro hu hrel
    rw [hended] at hu
    rw [hloop.1, hloop.2] at hrel
    rw [hstatus]
    exact h.status hu hrel
  · rcases hm.events with heq | ⟨q, heq, _, hcall⟩
    · rw [heq]
      exact h.quiet
    · rw [heq]
      apply h.quiet.append
      intro hq
      by_contra hs
      have hspent := (stopped_iff.mp (h.stopped (by simpa [LayerRun.hasEnded] using hs))).1 t hmem
      rw [hcall hq] at hspent
      cases hspent

/-- The rule for moves that append nothing. -/
theorem AfterEnd.silent (h : AfterEnd s) (heq : u.events = s.events)
    (hu : s.stopped = true →
      (s.loop.relies s.cancelled = true → (statusOf s.events).isTerminal = true) →
      u.stopped = true ∧
        (u.loop.relies u.cancelled = true → (statusOf s.events).isTerminal = true)) :
    AfterEnd u := by
  have hended : u.hasEnded = s.hasEnded := by
    unfold LayerRun.hasEnded
    rw [heq]
  refine ⟨?_, ?_, ?_⟩
  · intro hend
    rw [hended] at hend
    exact (hu (h.stopped hend) (h.status hend)).1
  · intro hend
    rw [hended] at hend
    rw [heq]
    exact (hu (h.stopped hend) (h.status hend)).2
  · rw [heq]
    exact h.quiet

/-- The rule for moves of the loop that append nothing. -/
theorem AfterEnd.goes (h : AfterEnd s) {pc : RunLoopPc W}
    (hpc : s.loop.rests s.cancelled = true →
      (s.loop.relies s.cancelled = true → (statusOf s.events).isTerminal = true) →
      pc.rests s.cancelled = true ∧
        (pc.relies s.cancelled = true → (statusOf s.events).isTerminal = true)) :
    AfterEnd { s with loop := pc } := by
  refine h.silent rfl ?_
  intro hstop hrel
  obtain ⟨hspent, hrests⟩ := stopped_iff.mp hstop
  obtain ⟨hrests', hrel'⟩ := hpc hrests hrel
  exact ⟨stopped_iff.mpr ⟨hspent, hrests'⟩, hrel'⟩

/-- The rule for an event that ends the run. -/
theorem AfterEnd.ending {q : Payload} (h : AfterEnd s) (heq : u.events = s.events ++ [q])
    (hq : q.isTerminal = true) (hstop : u.stopped = true) : AfterEnd u := by
  refine ⟨fun _ => hstop, fun _ _ => ?_, ?_⟩
  · rw [heq]
    exact isTerminal_statusOf_append hq
  · rw [heq]
    apply h.quiet.append
    intro hcall
    cases q <;> cases hq <;> cases hcall

/-- The rule for the events of other components. -/
theorem AfterEnd.noted {q : Payload} (h : AfterEnd s) (hq : q.isTerminal = false)
    (hcall : q.isToolCalled = false)
    (hok : s.hasEnded = true → s.loop.relies s.cancelled = true → statusChange q = none) :
    AfterEnd (s.emit q) := by
  have heq : (s.emit q).events = s.events ++ [q] := by
    simp [LayerRun.events, LayerRun.emit, Log.appendEvent]
  have hended : (s.emit q).hasEnded = s.hasEnded := by
    rw [hasEnded_append heq, hq, Bool.or_false]
  refine ⟨?_, ?_, ?_⟩
  · intro hu
    rw [hended] at hu
    exact h.stopped hu
  · intro hu hrel
    rw [hended] at hu
    rw [heq, statusOf_append_of_none (hok hu hrel)]
    exact h.status hu hrel
  · rw [heq]
    apply h.quiet.append
    intro hc
    rw [hcall] at hc
    cases hc

theorem events_close (p : Payload) : (s.close p).events = s.events ++ [p] := by
  cases p <;> simp [LayerRun.close, LayerRun.events, LayerRun.emit, LayerRun.setFlag, Log.appendEvent]

theorem rests_of_cancelled {b : Bool} {pc : RunLoopPc W} (h : pc.rests b = true) :
    pc.rests true = true := by
  cases pc <;> first | rfl | exact h

theorem relies_of_cancelled {b : Bool} {pc : RunLoopPc W} (h : pc.relies true = true) :
    pc.relies b = true := by
  cases pc <;> first | rfl | cases h

/-- A move that keeps the tasks, leaves the loop outside a layer and does not touch the watchdog. -/
theorem LayerInv.leaves (h : LayerInv s) (hg : s.loop.isGathering = false)
    (he : s.loop.isEnded = false) (htasks : u.tasks = s.tasks) (hw : u.watchdog = s.watchdog)
    (hc : u.loop.closes = true) : LayerInv u := by
  refine ⟨?_, ?_, ?_, hc⟩
  · intro _ t ht
    rw [htasks] at ht
    exact h.done hg t ht
  · intro t ht
    rw [htasks] at ht
    exact h.inner t ht
  · intro hr
    rw [hw] at hr
    rw [h.reaped hr] at he
    cases he

/-- A move that keeps the loop, the tasks and the watchdog. -/
theorem LayerInv.stays (h : LayerInv s) (hl : u.loop = s.loop) (htasks : u.tasks = s.tasks)
    (hw : u.watchdog = s.watchdog) : LayerInv u := by
  refine ⟨?_, ?_, ?_, ?_⟩
  · rw [hl, htasks]
    exact h.done
  · rw [htasks]
    exact h.inner
  · rw [hl, hw]
    exact h.reaped
  · rw [hl]
    exact h.closes

theorem close_tasks (p : Payload) : (s.close p).tasks = s.tasks := by
  cases p <;> rfl

theorem close_watchdog (p : Payload) : (s.close p).watchdog = s.watchdog := by
  cases p <;> rfl

/-- The loop keeps the first invariant. -/
theorem LayerInv.tick (h : LayerInv s) (hs : s.tick = some u) : LayerInv u := by
  unfold LayerRun.tick at hs
  cases hl : s.loop with
  | starting =>
      simp only [hl] at hs
      obtain rfl := Option.some.inj hs
      exact h.leaves (by rw [hl]; rfl) (by rw [hl]; rfl) rfl rfl rfl
  | reading | rereading =>
      simp only [hl] at hs
      split_ifs at hs
      all_goals
        obtain rfl := Option.some.inj hs
        exact h.leaves (by rw [hl]; rfl) (by rw [hl]; rfl) rfl rfl rfl
  | closing p =>
      have hp := h.closes
      rw [hl] at hp
      simp only [hl] at hs
      split_ifs at hs
      · obtain rfl := Option.some.inj hs
        exact h.leaves (by rw [hl]; rfl) (by rw [hl]; rfl) rfl rfl rfl
      · obtain rfl := Option.some.inj hs
        exact h.leaves (by rw [hl]; rfl) (by rw [hl]; rfl) rfl rfl hp
  | preparing layer =>
      simp only [hl] at hs
      obtain rfl := Option.some.inj hs
      refine ⟨(fun hg => by cases hg), ?_, ?_, rfl⟩
      · intro t ht
        rcases List.mem_append.mp ht with ht | ht
        · exact h.inner t ht
        · obtain ⟨step, _, rfl⟩ := List.mem_map.mp ht
          rfl
      · intro hr
        have he := h.reaped hr
        rw [hl] at he
        cases he
  | gathering =>
      simp only [hl] at hs
      split_ifs at hs with hall
      obtain rfl := Option.some.inj hs
      refine ⟨fun _ => List.all_eq_true.mp hall, h.inner, ?_, rfl⟩
      intro hr
      have he := h.reaped hr
      rw [hl] at he
      cases he
  | appending p =>
      simp only [hl] at hs
      obtain rfl := Option.some.inj hs
      exact h.leaves (by rw [hl]; rfl) (by rw [hl]; rfl) (close_tasks p) (close_watchdog p) rfl
  | atHead | ended =>
      simp only [hl] at hs
      cases hs

/-- The watchdog keeps the first invariant. -/
theorem LayerInv.watch {l : LayerLimits} (h : LayerInv s) (hs : s.watch l = some u) : LayerInv u := by
  unfold LayerRun.watch at hs
  cases hw : s.watchdog with
  | idle | done =>
      simp only [hw] at hs
      cases hs
  | cancelling =>
      simp only [hw] at hs
      split_ifs at hs with hall
      obtain rfl := Option.some.inj hs
      exact ⟨fun _ => List.all_eq_true.mp hall, h.inner, fun _ => rfl, rfl⟩
  | checking =>
      have he := h.reaped (by rw [hw]; rfl)
      simp only [hw] at hs
      split_ifs at hs
      all_goals
        obtain rfl := Option.some.inj hs
        exact ⟨h.done, h.inner, fun _ => he, h.closes⟩
  | appending n =>
      have he := h.reaped (by rw [hw]; rfl)
      simp only [hw] at hs
      obtain rfl := Option.some.inj hs
      exact ⟨h.done, h.inner, fun _ => he, h.closes⟩

/-- A deletion keeps the first invariant. -/
theorem LayerInv.deleting {i : ℕ} {pc : DeletePc} (h : LayerInv s) (hs : s.deleting i pc = some u) :
    LayerInv u := by
  cases pc with
  | reading =>
      simp only [LayerRun.deleting] at hs
      split_ifs at hs
      all_goals
        obtain rfl := Option.some.inj hs
        exact h.stays rfl rfl rfl
  | cancelling n =>
      simp only [LayerRun.deleting] at hs
      obtain rfl := Option.some.inj hs
      split_ifs
      all_goals exact h.stays rfl rfl rfl
  | appending n | cleaning =>
      obtain rfl := Option.some.inj hs
      exact h.stays rfl rfl rfl
  | done => cases hs

/-- The loop keeps the second invariant. -/
theorem AfterEnd.tick (h : AfterEnd s) (hinv : LayerInv s) (hs : s.tick = some u) : AfterEnd u := by
  unfold LayerRun.tick at hs
  cases hl : s.loop with
  | starting =>
      simp only [hl] at hs
      obtain rfl := Option.some.inj hs
      refine h.silent rfl ?_
      intro hstop hrel
      rw [stopped_iff] at hstop ⊢
      exact ⟨⟨hstop.1, rfl⟩, fun _ => hrel (by rw [hl]; rfl)⟩
  | reading =>
      simp only [hl] at hs
      split_ifs at hs with hterm
      · obtain rfl := Option.some.inj hs
        exact h.goes fun _ _ => ⟨rfl, fun hr => by cases hr⟩
      · obtain rfl := Option.some.inj hs
        apply h.goes
        intro _ hrel
        refine ⟨?_, fun hr => by cases hr⟩
        -- the status does not end the run, so the flag must be set
        by_contra hflag
        apply hterm
        apply hrel
        rw [hl]
        simpa [RunLoopPc.relies, RunLoopPc.rests] using hflag
  | rereading layer =>
      simp only [hl] at hs
      split_ifs at hs with hterm
      · obtain rfl := Option.some.inj hs
        exact h.goes fun _ _ => ⟨rfl, fun hr => by cases hr⟩
      · obtain rfl := Option.some.inj hs
        apply h.goes
        intro _ hrel
        exact absurd (hrel (by rw [hl]; rfl)) hterm
  | preparing layer =>
      simp only [hl] at hs
      obtain rfl := Option.some.inj hs
      refine h.silent rfl ?_
      intro hstop
      have hrests := (stopped_iff.mp hstop).2
      rw [hl] at hrests
      cases hrests
  | gathering =>
      simp only [hl] at hs
      split_ifs at hs
      obtain rfl := Option.some.inj hs
      apply h.goes
      intro hrests _
      rw [hl] at hrests
      exact ⟨hrests, fun hr => by cases hr⟩
  | closing p =>
      simp only [hl] at hs
      split_ifs at hs
      all_goals
        obtain rfl := Option.some.inj hs
        exact h.goes fun _ _ => ⟨rfl, fun hr => by cases hr⟩
  | appending p =>
      have hp := hinv.closes
      rw [hl] at hp
      simp only [hl] at hs
      obtain rfl := Option.some.inj hs
      refine h.ending (events_close p) hp ?_
      rw [stopped_iff]
      refine ⟨?_, rfl⟩
      intro t ht
      rw [show ({ s.close p with loop := .ended } : LayerRun W).tasks = s.tasks from close_tasks p] at ht
      exact hinv.spent (by rw [hl]; rfl) t ht
  | atHead | ended =>
      simp only [hl] at hs
      cases hs

/-- The watchdog keeps the second invariant. -/
theorem AfterEnd.watch {l : LayerLimits} (h : AfterEnd s) (hinv : LayerInv s)
    (hs : s.watch l = some u) : AfterEnd u := by
  unfold LayerRun.watch at hs
  cases hw : s.watchdog with
  | idle | done =>
      simp only [hw] at hs
      cases hs
  | cancelling =>
      simp only [hw] at hs
      split_ifs at hs with hall
      obtain rfl := Option.some.inj hs
      refine h.silent rfl ?_
      intro hstop _
      exact ⟨stopped_iff.mpr ⟨(stopped_iff.mp hstop).1, rfl⟩, fun hr => by cases hr⟩
  | checking =>
      simp only [hw] at hs
      split_ifs at hs
      all_goals
        obtain rfl := Option.some.inj hs
        exact h.silent rfl fun hstop hrel => ⟨hstop, hrel⟩
  | appending n =>
      have he := hinv.reaped (by rw [hw]; rfl)
      simp only [hw] at hs
      obtain rfl := Option.some.inj hs
      refine h.ending (events_close _) rfl ?_
      rw [stopped_iff]
      cases hl : s.loop with
      | ended => exact ⟨hinv.spent (by rw [hl]; rfl), by show s.loop.rests _ = true; rw [hl]; rfl⟩
      | _ =>
          rw [hl] at he
          cases he

/-- Setting the flag keeps the second invariant. -/
theorem AfterEnd.setFlag (h : AfterEnd s) : AfterEnd s.setFlag := by
  refine h.silent rfl ?_
  intro hstop hrel
  obtain ⟨hspent, hrests⟩ := stopped_iff.mp hstop
  cases hf : s.cancelFlag with
  | none =>
      have hsame : s.setFlag = s := by
        unfold LayerRun.setFlag
        rw [hf, Option.map_none, ← hf]
      rw [hsame]
      exact ⟨hstop, hrel⟩
  | some b =>
      have hset : s.setFlag.cancelled = true := by
        simp [LayerRun.cancelled, LayerRun.setFlag, hf]
      rw [stopped_iff, hset]
      exact ⟨⟨hspent, rests_of_cancelled hrests⟩, fun hr => hrel (relies_of_cancelled hr)⟩

/-- A deletion keeps the second invariant if it ends the run when nothing is left that could call
a tool. -/
theorem AfterEnd.deleting {i : ℕ} {pc : DeletePc} (h : AfterEnd s)
    (hok : ∀ n, pc = .appending n → s.hasEnded = true ∨ s.stopped = true)
    (hs : s.deleting i pc = some u) : AfterEnd u := by
  cases pc with
  | reading =>
      simp only [LayerRun.deleting] at hs
      split_ifs at hs
      all_goals
        obtain rfl := Option.some.inj hs
        exact h.silent rfl fun hstop hrel => ⟨hstop, hrel⟩
  | cancelling n =>
      simp only [LayerRun.deleting] at hs
      obtain rfl := Option.some.inj hs
      split_ifs
      · exact h.setFlag.silent rfl fun hstop hrel => ⟨hstop, hrel⟩
      · exact h.silent rfl fun hstop hrel => ⟨hstop, hrel⟩
  | appending n =>
      obtain rfl := Option.some.inj hs
      have hstop : s.stopped = true := (hok n rfl).elim h.stopped id
      have heq : (s.emit (LayerRun.failure "Run deleted by user" n)).events =
          s.events ++ [LayerRun.failure "Run deleted by user" n] := by
        simp [LayerRun.events, LayerRun.emit, Log.appendEvent]
      exact h.ending heq rfl hstop
  | cleaning =>
      obtain rfl := Option.some.inj hs
      exact h.silent rfl fun hstop hrel => ⟨hstop, hrel⟩
  | done => cases hs

end invariants

namespace ToolExecutor
variable {W : Type} [Py] (x : ToolExecutor W) {l : LayerLimits} {s u : LayerRun W}

/-- **Everything a move can do.** -/
inductive LayerTrans (l : LayerLimits) (s : LayerRun W) : RunMove W → LayerRun W → Prop
  | tick {u : LayerRun W} : s.tick = some u → LayerTrans l s .tick u
  | unread {p : Payload} : s.loop = .closing p → LayerTrans l s .unread { s with loop := .appending p }
  /-- The loop looks at the flag, takes its next turn, or is about to end the run. -/
  | go {m : RunMove W} {pc : RunLoopPc W} : s.loop = .atHead → pc.closes = true →
      (s.cancelled = true → pc.rests true = true ∧ pc.relies true = false) →
      LayerTrans l s m { s with loop := pc }
  | moved {m : RunMove W} {i : ℕ} {t t' : StepTask W} {u : LayerRun W} : s.tasks[i]? = some t →
      TaskMoved s i t t' u → LayerTrans l s m u
  | timeout : LayerTrans l s .timeout { s with watchdog := .cancelling }
  | watch {u : LayerRun W} : s.watch l = some u → LayerTrans l s .watch u
  | deleting {i : ℕ} {pc : DeletePc} {u : LayerRun W} : s.deletes[i]? = some pc →
      s.deleting i pc = some u → LayerTrans l s (.deleting i) u
  | leave : s.loop = .ended → LayerTrans l s .leave { s with cancelFlag := none, registered := false }
  | note {p : Payload} : p.isTerminal = false → p.isToolCalled = false →
      LayerTrans l s (.note p) (s.emit p)
  /-- A request for deletion, or a change of the world. -/
  | aside {m : RunMove W} {deletes : List DeletePc} {w : W} :
      LayerTrans l s m { s with deletes, shared := { s.shared with world := w } }

theorem trans_of_layerStep {m : RunMove W} (hinner : ∀ t ∈ s.tasks, t.innerOk = true)
    (hs : x.layerStep l s m = some u) : LayerTrans l s m u := by
  cases m with
  | tick => exact .tick hs
  | unread =>
      simp only [layerStep] at hs
      split at hs
      next p hl =>
        obtain rfl := Option.some.inj hs
        exact .unread hl
      next => cases hs
  | look layer retry =>
      simp only [layerStep] at hs
      split at hs
      next hl =>
        split_ifs at hs with hflag
        · obtain rfl := Option.some.inj hs
          exact .go hl rfl fun _ => ⟨rfl, rfl⟩
        all_goals
          obtain rfl := Option.some.inj hs
          exact .go hl rfl fun h => absurd h hflag
      next => cases hs
  | turn =>
      simp only [layerStep] at hs
      split at hs
      next hl =>
        obtain rfl := Option.some.inj hs
        exact .go hl rfl fun _ => ⟨rfl, rfl⟩
      next => cases hs
  | conclude p =>
      simp only [layerStep] at hs
      split at hs
      next hl =>
        split_ifs at hs with hp
        obtain rfl := Option.some.inj hs
        exact .go hl hp fun _ => ⟨rfl, rfl⟩
      next => cases hs
  | task i =>
      simp only [layerStep] at hs
      split at hs
      next t ht =>
        obtain ⟨t', hm⟩ := x.moved_taskStep hs
        exact .moved ht hm
      next => cases hs
  | nest i c =>
      simp only [layerStep] at hs
      split at hs
      next t ht =>
        obtain ⟨t', hm⟩ := moved_nestStep hs
        exact .moved ht hm
      next => cases hs
  | inner i j =>
      simp only [layerStep] at hs
      split at hs
      next t ht =>
        obtain ⟨t', hm⟩ := x.moved_innerStep (hinner t (List.mem_of_getElem? ht)) hs
        exact .moved ht hm
      next => cases hs
  | timeout =>
      simp only [layerStep] at hs
      split_ifs at hs
      obtain rfl := Option.some.inj hs
      exact .timeout
  | abort i =>
      simp only [layerStep] at hs
      split at hs
      next t ht =>
        split_ifs at hs
        obtain rfl := Option.some.inj hs
        obtain ⟨t', hm⟩ := moved_abort s i t
        exact .moved ht hm
      next => cases hs
  | watch => exact .watch hs
  | delete =>
      obtain rfl := Option.some.inj hs
      exact .aside
  | deleting i =>
      simp only [layerStep] at hs
      split at hs
      next pc hpc => exact .deleting hpc hs
      next => cases hs
  | leave =>
      simp only [layerStep] at hs
      split at hs
      next hl =>
        split_ifs at hs
        obtain rfl := Option.some.inj hs
        exact .leave hl
      next => cases hs
  | note p =>
      simp only [layerStep] at hs
      split_ifs at hs with hp
      obtain rfl := Option.some.inj hs
      simp only [Bool.or_eq_true, decide_eq_true_eq, not_or, Bool.not_eq_true] at hp
      refine .note hp.1 ?_
      cases p <;> first | rfl | exact absurd rfl hp.2
  | outside w =>
      obtain rfl := Option.some.inj hs
      exact .aside

omit [Py] in
/-- **Tasks are under way only while the loop gathers them.** -/
theorem layerInv_step {m : RunMove W} (h : LayerInv s) (ht : LayerTrans l s m u) : LayerInv u := by
  cases ht with
  | tick hs => exact h.tick hs
  | @unread p hl =>
      have hp := h.closes
      rw [hl] at hp
      exact h.leaves (by rw [hl]; rfl) (by rw [hl]; rfl) rfl rfl hp
  | go hl hc _ => exact h.leaves (by rw [hl]; rfl) (by rw [hl]; rfl) rfl rfl hc
  | moved hget hm => exact h.moved hget hm
  | timeout => exact ⟨h.done, h.inner, (fun hr => by cases hr), h.closes⟩
  | watch hs => exact h.watch hs
  | deleting _ hs => exact h.deleting hs
  | leave _ => exact h.stays rfl rfl rfl
  | note _ _ => exact h.stays rfl rfl rfl
  | aside => exact h.stays rfl rfl rfl

omit [Py] in
/-- **A move keeps the run quiet after its end**, if a deletion ends the run only when nothing is
left that could call a tool. -/
theorem afterEnd_step {m : RunMove W} (h : AfterEnd s) (hinv : LayerInv s)
    (hok : endsWhenStopped s m = true) (ht : LayerTrans l s m u) : AfterEnd u := by
  cases ht with
  | tick hs => exact h.tick hinv hs
  | unread hl => exact h.goes fun _ _ => ⟨rfl, fun hr => by cases hr⟩
  | @go _ pc hl _ hpc =>
      apply h.goes
      intro hrests _
      rw [hl] at hrests
      -- the flag is set, for the loop would go on otherwise
      have hflag : s.cancelled = true := hrests
      obtain ⟨hrests', hrel'⟩ := hpc hflag
      rw [hflag]
      refine ⟨hrests', fun hr => ?_⟩
      rw [hrel'] at hr
      cases hr
  | moved hget hm => exact h.moved hget hm
  | timeout => exact h.silent rfl fun hstop hrel => ⟨hstop, hrel⟩
  | watch hs => exact h.watch hinv hs
  | deleting hpc hs =>
      refine h.deleting ?_ hs
      rintro n rfl
      simp only [endsWhenStopped, hpc, Bool.or_eq_true] at hok
      exact hok
  | leave hl =>
      refine h.silent rfl fun hstop _ => ⟨?_, ?_⟩
      · rw [stopped_iff]
        refine ⟨(stopped_iff.mp hstop).1, ?_⟩
        rw [hl]
        rfl
      · intro hr
        rw [hl] at hr
        cases hr
  | note hp hc =>
      apply h.noted hp hc
      intro hend hrel
      simpa [endsWhenStopped, hend, hrel] using hok
  | aside => exact h.silent rfl fun hstop hrel => ⟨hstop, hrel⟩

/-- **Nothing is called after the end**, in every run in which a deletion ends the run only when
nothing is left that could call a tool, and nothing moves the status of an ended run while the loop
relies on it. -/
theorem nothing_called_after_end {p : RunStartedPayload} {w : W}
    (h : Lib.ReachesVia (x.layerStep l) (fun s m => endsWhenStopped s m = true)
      (LayerRun.start p w) s) : QuietAfterEnd s.events := by
  have hinit : LayerInv (LayerRun.start p w) ∧ AfterEnd (LayerRun.start p w) := by
    refine ⟨⟨?_, ?_, ?_, rfl⟩, ⟨?_, ?_, ?_⟩⟩
    · intro _ t ht
      cases ht
    · intro t ht
      cases ht
    · intro hr
      cases hr
    · intro he
      cases he
    · intro he
      cases he
    · have hnil : QuietAfterEnd [] := by simp [QuietAfterEnd]
      exact hnil.append (fun _ => rfl)
  have hinv : LayerInv s ∧ AfterEnd s :=
    h.invariant (I := fun s => LayerInv s ∧ AfterEnd s) hinit fun s u m _ hok hi hs =>
      have ht := x.trans_of_layerStep hi.1.inner hs
      ⟨layerInv_step hi.1 ht, afterEnd_step hi.2 hi.1 hok ht⟩
  exact hinv.2.quiet

end ToolExecutor

/-! ### A deletion in the middle of a layer -/

/-- A tool is called after the end of the run. -/
def calledAfterEnd : List Payload → Bool
  | [] => false
  | p :: log => (p.isTerminal && log.any Payload.isToolCalled) || calledAfterEnd log

theorem QuietAfterEnd.calledAfterEnd_eq_false : ∀ {log : List Payload}, QuietAfterEnd log →
    calledAfterEnd log = false
  | [], _ => rfl
  | p :: log, h => by
      unfold calledAfterEnd
      rw [Bool.or_eq_false_iff, Bool.and_eq_false_iff]
      refine ⟨?_, ?_⟩
      · by_cases hp : p.isTerminal = true
        · refine .inr ?_
          rw [List.any_eq_false]
          intro q hq
          rw [h [] p log rfl hp q hq]
          exact Bool.false_ne_true
        · exact .inl (by simpa using hp)
      · apply QuietAfterEnd.calledAfterEnd_eq_false
        intro pre q post heq
        exact h (p :: pre) q post (by rw [heq]; rfl)

section scenario
attribute [local instance] asciiPy

/-- One call of a tool at a time. -/
def oneAtATime : LayerLimits := { toolLimit := fun _ => 1, runTimeoutMs := 0 }

def mailRun : LayerRun ℕ := LayerRun.start { intent := "send two messages" } 0

/-- Another message. -/
def sendOther : Call ℕ :=
  { sendMessage "t2" with
    input := [("server_name", .str "mail"), ("tool_name", .str "send"),
      ("arguments", .obj [("to", .str "eve")])] }

/-- Two messages in one layer: the run is deleted while the first is being sent, and the second is
sent afterwards. -/
theorem deleted_run_calls_on : ∃ s,
    Lib.Reaches (remoteExecutor.layerStep oneAtATime) mailRun s ∧ ¬QuietAfterEnd s.events := by
  let layer : List (LayerStep ℕ) := [⟨sendMessage "t1", false⟩, ⟨sendOther, false⟩]
  let moves : List (RunMove ℕ) := [.tick, .tick, .look layer false, .tick] ++
    [RunMove.task 0, .task 0, .task 1, .task 0, .task 0, .task 0] ++
    [RunMove.delete, .deleting 0, .deleting 0, .deleting 0, .deleting 0] ++
    [RunMove.task 0, .task 0, .task 0, .task 0] ++ List.replicate 4 (RunMove.task 1)
  obtain ⟨s, hs, hp⟩ := Lib.exists_reaches_of_run (remoteExecutor.layerStep oneAtATime) moves mailRun
    (fun s => calledAfterEnd s.events) (by decide +kernel)
  refine ⟨s, hs, fun h => ?_⟩
  rw [h.calledAfterEnd_eq_false] at hp
  cases hp

/-- The run is deleted between two layers: the loop finds the flag set. -/
theorem run_deleted_between_layers : ∃ s,
    Lib.ReachesVia (remoteExecutor.layerStep oneAtATime) (fun s m => endsWhenStopped s m = true)
      mailRun s ∧ s.events.any Payload.isToolCalled = true ∧ s.hasEnded = true ∧
      s.loop.isEnded = true ∧ QuietAfterEnd s.events := by
  let layer : List (LayerStep ℕ) := [⟨sendMessage "t1", false⟩]
  let moves : List (RunMove ℕ) := [.tick, .tick, .look layer false, .tick] ++
    List.replicate 9 (RunMove.task 0) ++
    [RunMove.tick, .delete, .deleting 0, .deleting 0, .deleting 0, .look layer false, .tick]
  obtain ⟨s, hs, hp⟩ := Lib.exists_reachesVia_of_run (remoteExecutor.layerStep oneAtATime)
    endsWhenStopped moves mailRun
    (fun s => s.events.any Payload.isToolCalled && (s.hasEnded && s.loop.isEnded)) (by decide +kernel)
  rw [Bool.and_eq_true, Bool.and_eq_true] at hp
  exact ⟨s, hs, hp.1, hp.2.1, hp.2.2, remoteExecutor.nothing_called_after_end hs⟩

end scenario
end JAgent
