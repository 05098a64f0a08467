import JAgent.Core.DagExecutor
import JAgent.Tools.Guardrails
import JAgent.Tools.Runtime

/-! # The tool executor

`ToolExecutor.execute` as a program of atomic actions: one action for each piece of code between
two awaits (a store access, the guardrails, one invocation of the tool function, a backend
write).  `CallPc` names the action that comes next and holds the local variables it needs; `stepCall`
performs it.  Everything calls share is in `Shared`: the log of the run and the world `W` that
tool functions and backends act on.

`execute` lets one call take its actions one after the other.  Several calls in flight are
interleavings of the same actions. -/

namespace JAgent

/-- A result of `execute`; durations are left out. -/
structure CallResult extends ToolExecutionResult where
  toolName : String
  idempotencyKey : Option String := none
  guardrailId : Option String := none
  guardrailReason : Option String := none
  cached : Bool := false
  retryAttempts : ℕ := 0
  timeoutMs : ℤ := 0
deriving DecidableEq

/-- The arguments of `execute`, with the fresh ids it draws. -/
structure Call (W : Type) where
  toolName : String
  input : Obj
  td : ToolDefinition
  toolFn : W → Answer × W
  toolCallId : String
  confirmationId : String
  stepId : Option String := none
  workspaceId : Option String := none
  backend : Option (ExecutionBackend W) := none
  allowedTools : Option (List String) := none

/-- The next action of a call. -/
inductive CallPc where
  /-- Run the guardrails. -/
  | guarding
  /-- Append the guardrail event. -/
  | blocked (r : GuardrailResult)
  /-- Look the key up; `confirm` says whether a guardrail asked for confirmation. -/
  | looking (confirm : Bool)
  /-- Look for a confirmation request under the key. -/
  | requesting
  /-- Look for the operator's answer to the request. -/
  | answering (request : ConfirmationRequestedPayload)
  /-- Append the failure after a refusal. -/
  | denying
  /-- Append a confirmation request. -/
  | asking
  /-- Append the call event. -/
  | calling
  /-- Invoke the tool function. -/
  | invoking (attempt : ℕ)
  /-- Append the failure of an output that is no structured data. -/
  | rejecting (error : String)
  /-- Append the completion of an unsuccessful output. -/
  | unsuccessful (output : Value) (error : String) (retries : ℕ)
  /-- Offload the output if it is large. -/
  | offloading (output : Value) (retries : ℕ)
  /-- Append the event of a stored blob. -/
  | noting (output : Value) (blob : OutputBlobStoredPayload) (retries : ℕ)
  /-- Append the completion under the key. -/
  | recording (output persisted : Value) (retries : ℕ)
  /-- Handle an exception. -/
  | failing (e : Raised)
  /-- `execute` has returned. -/
  | returned (r : CallResult)
  /-- `execute` has raised. -/
  | raised (e : Raised)

/-- A call in flight. -/
structure Proc (W : Type) where
  call : Call W
  toolCallId : String
  pc : CallPc

/-- What the calls of a run share. -/
structure Shared (W : Type) where
  log : Log
  world : W

structure ToolExecutor (W : Type) where
  digest : String → String
  guardrails : GuardrailRunner W
  outputInlineMaxChars : ℕ := 8000

namespace ToolExecutor
variable {W : Type} [Py] (x : ToolExecutor W) (p : Proc W) (s : Shared W)

/-- The idempotency key of a call. -/
def key (c : Call W) : Option String := idempotencyKey x.digest c.td c.input

/-- The key of a call's confirmation. -/
def confirmKey (c : Call W) : String := JAgent.confirmKey x.digest c.td c.toolName c.input

/-- A result of the call with the given status. -/
def result (status : ExecutionStatus) : CallResult :=
  { status, toolCallId := p.toolCallId, toolName := p.call.toolName
    idempotencyKey := x.key p.call }

/-- Go on with another action. -/
def goto (pc : CallPc) : Proc W × Shared W := ({ p with pc }, s)

/-- Append an event and go on. -/
def emit (payload : Payload) (pc : CallPc) : Proc W × Shared W :=
  ({ p with pc }, { s with log := s.log.appendEvent payload })

/-- Where a call goes when its key is not recorded. -/
def afterMiss (confirm : Bool) : CallPc :=
  if p.call.td.effectiveRequiresConfirmation p.call.input || confirm then .requesting else .calling

/-- Where a call goes when an output has been evaluated. -/
def afterOutput (output : Value) (retries : ℕ) : CallPc :=
  match evaluate p.call.td output with
  | .error e => .failing e
  | .ok (some error) => .unsuccessful output error retries
  | .ok none =>
    if p.call.td.outputSchema ≠ [] && (x.guardrails.schemaError p.call.td.outputSchema output).isSome &&
        !structurallyUsable output then
      .rejecting
        ("Output schema validation failed: expected structured data, got " ++ output.typeName)
    else .offloading output retries

/-- Where a call goes after an invocation of the tool function. -/
def afterInvoke (attempt : ℕ) : Answer → CallPc
  | .error e =>
    if shouldRetry attempt e.text p.call.td.retryPolicy then .invoking (attempt + 1) else .failing e
  | .ok output =>
    match semanticRetryReason p.call.td p.call.toolName p.call.input output with
    | .error e => .failing e
    | .ok reason =>
      if reason.isNone || p.call.td.retryPolicy.maxRetries < attempt then
        x.afterOutput p output (attempt - 1)
      else .invoking (attempt + 1)

/-- `raise last_error` after a loop that has invoked nothing. -/
def nothingInvoked : Raised := .error "TypeError" "exceptions must derive from BaseException"

/-- Where a call goes when its event is written: the loop of `execute_with_retry` is empty under a negative
number of retries. -/
def afterCalled : CallPc :=
  if p.call.td.retryPolicy.maxRetries < 0 then .failing nothingInvoked else .invoking 1

/-- One atomic action of a call. -/
def stepCall : Proc W × Shared W :=
  match p.pc with
  | .guarding =>
    match x.guardrails.run p.call.td p.call.input s.log s.world p.call.allowedTools with
    | .error e => goto p s (.raised e)
    | .ok results => match results.find? fun r => !r.passed with
      | some r => goto p s (.blocked r)
      | none => goto p s (.looking (results.any fun r => r.triggersConfirmation))
  | .blocked r =>
    emit p s (.guardrailTriggered p.toolCallId p.call.toolName r.guardrailId r.reason p.call.stepId
        p.call.workspaceId)
      (.returned { x.result p .guardrailBlocked with
        guardrailId := some r.guardrailId, guardrailReason := some r.reason })
  | .looking confirm => match x.key p.call with
    | none => goto p s (afterMiss p confirm)
    | some k => match s.log.findByIdempotencyKey .tool k with
      | none => goto p s (afterMiss p confirm)
      | some row => match row.payload with
        | .toolCompleted done =>
          let se := done.resultType = .unsuccessful
          goto p s (.returned { x.result p .idempotencyHit with
            toolCallId := done.toolCallId, output := done.output, cached := true
            hasSemanticError := se, error := if se then done.error else none })
        | _ => goto p s (.raised (.error "ValidationError" "not a ToolCompletedPayload"))
  | .requesting => match s.log.findByIdempotencyKey .confirmation (x.confirmKey p.call) with
    | none => goto p s .asking
    | some row => match row.payload with
      | .confirmationRequested request => goto p s (.answering request)
      | _ => goto p s (.raised (.error "ValidationError" "not a ConfirmationRequestedPayload"))
  | .answering request => match s.log.findConfirmationById request.confirmationId with
    | none => goto p s (.returned { x.result p .confirmationNeeded with
        confirmationId := some request.confirmationId })
    | some answer =>
      if answer.confirmed then
        ({ p with pc := .calling, toolCallId := request.toolCallId }, s)
      else goto p s .denying
  | .denying =>
    emit p s (.toolFailed p.toolCallId p.call.toolName "Confirmation denied by operator" false
        p.call.stepId)
      (.returned { x.result p .failed with error := some "Confirmation denied by operator" })
  | .asking =>
    ({ p with pc := .returned { x.result p .confirmationNeeded with
        confirmationId := some p.call.confirmationId } },
      { s with log := s.log.appendKeyed (.confirmationRequested
        { confirmationId := p.call.confirmationId, toolCallId := p.toolCallId
          toolName := p.call.toolName, input := p.call.input, idempotencyKey := x.confirmKey p.call
          stepId := p.call.stepId }) (some (x.confirmKey p.call)) })
  | .calling =>
    emit p s (.toolCalled { toolCallId := p.toolCallId, toolName := p.call.toolName
                            input := p.call.input, idempotencyKey := x.key p.call
                            stepId := p.call.stepId }) (afterCalled p)
  | .invoking attempt =>
    let (answer, world) := p.call.toolFn s.world
    ({ p with pc := x.afterInvoke p attempt answer }, { s with world })
  | .rejecting error =>
    emit p s (.toolFailed p.toolCallId p.call.toolName error false p.call.stepId)
      (.returned { x.result p .failed with error := some error })
  | .unsuccessful output error retries =>
    emit p s (.toolCompleted { toolCallId := p.toolCallId, toolName := p.call.toolName, output
                               resultType := .unsuccessful, error := some error
                               stepId := p.call.stepId })
      (.returned { x.result p .completed with
        output := output, retryAttempts := retries, hasSemanticError := true, error := some error })
  | .offloading output retries => match p.call.backend with
    | none => goto p s (.recording output output retries)
    | some b =>
      if (serialize output).length ≤ x.outputInlineMaxChars then
        goto p s (.recording output output retries)
      else match b.write (blobPath x.digest output) (serialize output) s.world with
        | (.error _, world) => goto p { s with world } (.recording output output retries)
        | (.ok _, world) => goto p { s with world } (.noting output
            (storedBlob x.digest x.outputInlineMaxChars output p.toolCallId p.call.toolName
              p.call.stepId p.call.workspaceId) retries)
  | .noting output blob retries =>
    emit p s (.outputBlobStored blob) (.recording output (buildRefPlaceholder blob) retries)
  | .recording output persisted retries =>
    ({ p with pc := .returned { x.result p .completed with
        output := output, retryAttempts := retries } },
      { s with log := s.log.appendKeyed (.toolCompleted
        { toolCallId := p.toolCallId, toolName := p.call.toolName, output := persisted
          stepId := p.call.stepId }) (x.key p.call) })
  | .failing e => match e with
    | .timeout =>
      emit p s (.toolTimeout p.toolCallId p.call.toolName p.call.td.timeoutMs p.call.stepId)
        (.returned { x.result p .timeout with
          timeoutMs := p.call.td.timeoutMs, error := some "Tool timed out" })
    | .confirmationNeeded _ cid =>
      goto p s (.returned { x.result p .confirmationNeeded with confirmationId := some cid })
    | .error .. =>
      emit p s (.toolFailed p.toolCallId p.call.toolName e.text
          (retryableError p.call.td.retryPolicy e) p.call.stepId)
        (.returned { x.result p .failed with
          error := some e.text, retryable := retryableError p.call.td.retryPolicy e })
  | .returned _ | .raised _ => (p, s)

/-- A call that has just been made. -/
def start (c : Call W) : Proc W := { call := c, toolCallId := c.toolCallId, pc := .guarding }

/-- A call takes `n` actions in a row. -/
def runCall : ℕ → Proc W → Shared W → Proc W × Shared W
  | 0, p, s => (p, s)
  | n + 1, p, s => runCall n (x.stepCall p s).1 (x.stepCall p s).2

end ToolExecutor

/-! ### Every call ends -/

/-- An upper bound for the number of actions that are left. -/
def CallPc.rank (retries : ℕ) : CallPc → ℕ
  | .guarding => retries + 11
  | .looking _ => retries + 10
  | .requesting => retries + 9
  | .answering _ => retries + 8
  | .calling => retries + 7
  | .invoking attempt => (retries + 1 - attempt) + 5
  | .offloading .. => 3
  | .noting .. => 2
  | .blocked _ | .denying | .asking | .rejecting _ | .unsuccessful .. | .recording .. | .failing _ => 1
  | .returned _ | .raised _ => 0

/-- The call has returned or raised. -/
def CallPc.finished : CallPc → Bool
  | .returned _ | .raised _ => true
  | _ => false

namespace ToolExecutor

section
variable {W : Type} (p : Proc W) (s : Shared W)

@[simp] theorem goto_pc (pc : CallPc) : (goto p s pc).1.pc = pc := rfl

@[simp] theorem goto_shared (pc : CallPc) : (goto p s pc).2 = s := rfl

@[simp] theorem emit_pc (payload : Payload) (pc : CallPc) : (emit p s payload pc).1.pc = pc := rfl

/-- The retries a call may make. -/
def retries (c : Call W) : ℕ := c.td.retryPolicy.maxRetries.toNat

/-- A call whose event is written fails without an invocation, or makes its first one. -/
theorem afterCalled_cases : afterCalled p = .failing nothingInvoked ∨ afterCalled p = .invoking 1 := by
  unfold afterCalled
  split_ifs
  · exact .inl rfl
  · exact .inr rfl

theorem afterCalled_of_nonneg {p : Proc W} (h : 0 ≤ p.call.td.retryPolicy.maxRetries) :
    afterCalled p = .invoking 1 := if_neg (not_lt.mpr h)

theorem attempt_le_of_shouldRetry {attempt : ℕ} {error : String} {policy : RetryPolicy}
    (h : shouldRetry attempt error policy = true) : (attempt : ℤ) ≤ policy.maxRetries := by
  unfold shouldRetry at h
  split_ifs at h with hm
  exact not_lt.mp hm

end

variable {W : Type} [Py] (x : ToolExecutor W)

/-- A call keeps its arguments. -/
@[simp] theorem stepCall_call (p : Proc W) (s : Shared W) : (x.stepCall p s).1.call = p.call := by
  unfold stepCall goto emit
  repeat' split
  all_goals rfl

theorem rank_afterOutput (p : Proc W) (output : Value) (n k : ℕ) :
    (x.afterOutput p output n).rank k ≤ 3 := by
  unfold afterOutput
  repeat' split
  all_goals simp [CallPc.rank]

theorem rank_afterInvoke (p : Proc W) (attempt : ℕ) (a : Answer) :
    (x.afterInvoke p attempt a).rank (retries p.call) <
      (CallPc.invoking attempt).rank (retries p.call) := by
  have again : (attempt : ℤ) ≤ p.call.td.retryPolicy.maxRetries →
      (CallPc.invoking (attempt + 1)).rank (retries p.call) <
        (CallPc.invoking attempt).rank (retries p.call) := by
    intro h
    simp only [CallPc.rank, retries]
    omega
  have low : ∀ n, n ≤ 3 → n < (CallPc.invoking attempt).rank (retries p.call) := by
    intro n hn
    simp only [CallPc.rank]
    omega
  unfold afterInvoke
  split
  · split_ifs with hr
    · exact again (attempt_le_of_shouldRetry hr)
    · exact low 1 (by omega)
  · split
    · exact low 1 (by omega)
    · split_ifs with hr
      · exact low _ (x.rank_afterOutput p _ _ _)
      · apply again
        simp only [Bool.or_eq_true, decide_eq_true_eq, not_or, not_lt] at hr
        exact hr.2

/-- **Every action brings a call nearer to its end.** -/
theorem rank_stepCall (p : Proc W) (s : Shared W) (h : p.pc.finished = false) :
    (x.stepCall p s).1.pc.rank (retries p.call) < p.pc.rank (retries p.call) := by
  obtain ⟨c, tid, pc⟩ := p
  cases pc with
  | invoking attempt => exact x.rank_afterInvoke ⟨c, tid, .invoking attempt⟩ attempt _
  | returned r => simp [CallPc.finished] at h
  | raised e => simp [CallPc.finished] at h
  | looking confirm =>
      have hmiss : ∀ q : Proc W, (afterMiss q confirm).rank (retries c) < retries c + 10 := by
        intro q
        unfold afterMiss
        split_ifs <;> simp [CallPc.rank]
      simp only [stepCall]
      repeat' split
      all_goals first
        | exact hmiss _
        | simp [CallPc.rank]
  | calling =>
      show (afterCalled ⟨c, tid, .calling⟩).rank (retries c) < _
      obtain hpc | hpc := afterCalled_cases ⟨c, tid, .calling⟩
      all_goals
        rw [hpc]
        simp only [CallPc.rank]
        omega
  | _ =>
      simp only [stepCall]
      repeat' split
      all_goals simp [CallPc.rank]

theorem runCall_finished : ∀ (n : ℕ) {p : Proc W} {s : Shared W}, p.pc.finished = true →
    x.runCall n p s = (p, s)
  | 0, _, _, _ => rfl
  | n + 1, p, s, h => by
      have hstep : x.stepCall p s = (p, s) := by
        unfold stepCall
        split <;> simp_all [CallPc.finished]
      unfold runCall
      rw [hstep]
      exact runCall_finished n h

/-- As many actions as the rank of a call end it. -/
theorem finished_runCall : ∀ (n : ℕ) (p : Proc W) (s : Shared W), p.pc.rank (retries p.call) ≤ n →
    (x.runCall n p s).1.pc.finished = true := by
  intro n
  induction n with
  | zero =>
      intro p s h
      by_contra hf
      have hlt := x.rank_stepCall p s (by simpa [runCall] using hf)
      omega
  | succ n ih =>
      intro p s h
      by_cases hf : p.pc.finished = true
      · rw [x.runCall_finished _ hf]
        exact hf
      · have hlt := x.rank_stepCall p s (by simpa using hf)
        unfold runCall
        apply ih
        rw [stepCall_call]
        omega

/-- `execute`: the call takes its actions until it has returned or raised. -/
def execute (c : Call W) (s : Shared W) : Proc W × Shared W :=
  x.runCall (CallPc.guarding.rank (retries c)) (start c) s

/-- **`execute` always ends.** -/
theorem finished_execute (c : Call W) (s : Shared W) :
    (x.execute c s).1.pc.finished = true :=
  x.finished_runCall _ (start c) s le_rfl

/-- A result that asks for a confirmation names it. -/
def asksByName : CallPc → Bool
  | .returned r => namesConfirmation r.toToolExecutionResult
  | _ => true

theorem asksByName_stepCall (p : Proc W) (s : Shared W) (h : asksByName p.pc = true) :
    asksByName (x.stepCall p s).1.pc = true := by
  obtain ⟨c, tid, pc⟩ := p
  cases pc with
  | returned r => exact h
  | looking confirm =>
      simp only [stepCall, afterMiss]
      repeat' split
      all_goals simp [asksByName, namesConfirmation, result]
  | invoking attempt =>
      simp only [stepCall, afterInvoke, afterOutput]
      repeat' split
      all_goals rfl
  | calling =>
      show asksByName (afterCalled ⟨c, tid, .calling⟩) = true
      obtain hpc | hpc := afterCalled_cases ⟨c, tid, .calling⟩
      all_goals
        rw [hpc]
        rfl
  | _ =>
      simp only [stepCall]
      repeat' split
      all_goals simp [asksByName, namesConfirmation, result]

theorem asksByName_runCall : ∀ (n : ℕ) (p : Proc W) (s : Shared W), asksByName p.pc = true →
    asksByName (x.runCall n p s).1.pc = true
  | 0, _, _, h => h
  | n + 1, p, s, h => asksByName_runCall n _ _ (x.asksByName_stepCall p s h)

/-- **Every result of `execute` that asks for a confirmation carries its id.** -/
theorem execute_namesConfirmation {c : Call W} {s : Shared W} {r : CallResult}
    (h : (x.execute c s).1.pc = .returned r) : namesConfirmation r.toToolExecutionResult = true := by
  have hn := x.asksByName_runCall (CallPc.guarding.rank (retries c)) (start c) s rfl
  unfold execute at h
  rw [h] at hn
  exact hn

/-- Left alone, the call ends in a state that satisfies `Q`. -/
def Ends (p : Proc W) (s : Shared W) (Q : Proc W → Shared W → Prop) : Prop :=
  ∀ n, p.pc.rank (retries p.call) ≤ n → Q (x.runCall n p s).1 (x.runCall n p s).2

variable {x}

theorem ends_done {p : Proc W} {s : Shared W} {Q : Proc W → Shared W → Prop}
    (h : p.pc.finished = true) (hQ : Q p s) : x.Ends p s Q := by
  intro n _
  rw [x.runCall_finished n h]
  exact hQ

/-- The rule for one action. -/
theorem ends_step {p p' : Proc W} {s s' : Shared W} {Q : Proc W → Shared W → Prop}
    (hf : p.pc.finished = false) (hs : x.stepCall p s = (p', s')) (h : x.Ends p' s' Q) :
    x.Ends p s Q := by
  intro n hn
  have hlt := x.rank_stepCall p s hf
  have hcall := x.stepCall_call p s
  rw [hs] at hlt hcall
  simp only at hlt hcall
  cases n with
  | zero => omega
  | succ n =>
      unfold runCall
      rw [hs]
      apply h
      rw [hcall]
      omega

theorem Ends.execute {c : Call W} {s : Shared W} {Q : Proc W → Shared W → Prop}
    (h : x.Ends (start c) s Q) : Q (x.execute c s).1 (x.execute c s).2 := h _ le_rfl

end ToolExecutor
end JAgent
