import JAgent.Models.Plan

/-! # Step results

The execution state of a step, the predicates the scheduler decides with (`stepNormal`,
`shouldNotRerun`, `outputAvailable`) and the signature that says when two actions are the
same.  `taskState` is an annotation of the planner; no predicate reads it. -/

namespace JAgent

inductive ExecState where
  | pending | running | completed | unsuccessful | failed | skipped | idempotent | cancelled
deriving DecidableEq, Repr

def ExecState.value : ExecState → String
  | .pending => "pending"
  | .running => "running"
  | .completed => "completed"
  | .unsuccessful => "unsuccessful"
  | .failed => "failed"
  | .skipped => "skipped"
  | .idempotent => "idempotent"
  | .cancelled => "cancelled"

/-- The single "step is normal" predicate. -/
def execStateIsNormal (e : ExecState) (probe : Bool) : Bool :=
  e = .completed || e = .idempotent || (e = .unsuccessful && probe)

inductive TaskState where
  | unknown | achieved | partially | notAchieved | waived
deriving DecidableEq, Repr

def TaskState.value : TaskState → String
  | .unknown => "unknown"
  | .achieved => "achieved"
  | .partially => "partial"
  | .notAchieved => "not_achieved"
  | .waived => "waived"

/-- `TaskState(s)`; `none` where the constructor raises. -/
def TaskState.ofValue? (s : String) : Option TaskState :=
  [TaskState.unknown, .achieved, .partially, .notAchieved, .waived].find? (·.value = s)

/-- Result of executing a single step. -/
structure StepResult where
  stepId : String
  execState : ExecState := .pending
  output : Value := .null
  summary : String := ""
  error : Option String := none
  retryable : Bool := false
  confirmationId : Option String := none
  taskState : TaskState := .unknown
  probe : Bool := false
  toolCallId : Option String := none
deriving DecidableEq

namespace StepResult
variable (r : StepResult)

def shouldNotRerun : Bool :=
  r.execState = .completed || r.execState = .idempotent || r.execState = .cancelled

def stepNormal : Bool := execStateIsNormal r.execState r.probe

def outputAvailable : Bool :=
  r.execState = .completed || r.execState = .unsuccessful || r.execState = .idempotent

/-- The result of an action that ran to its end, now or in an earlier call. -/
def finished : Bool := r.execState = .completed || r.execState = .idempotent

variable {r}

theorem stepNormal_of_finished (h : r.finished = true) : r.stepNormal = true := by
  unfold finished at h
  unfold stepNormal execStateIsNormal
  simp_all

theorem shouldNotRerun_of_finished (h : r.finished = true) : r.shouldNotRerun = true := by
  unfold finished at h
  unfold shouldNotRerun
  simp_all

theorem outputAvailable_of_stepNormal (h : r.stepNormal = true) : r.outputAvailable = true := by
  unfold stepNormal execStateIsNormal at h
  unfold outputAvailable
  cases hr : r.execState <;> simp_all

end StepResult

/-! ### The same action -/

section signature
variable [Py]

/-- Key-order independent text of a tool input. -/
def actionInputSignature (inp : Obj) : String := dumps {} (.obj inp)

/-- Two actions are the same when tool and input signature agree. -/
def actionSignature (tool : String) (inp : Obj) : String × String :=
  (tool, actionInputSignature inp)

def stepSignature (step : DagStep) : String × String := actionSignature step.tool step.input

end signature
end JAgent
