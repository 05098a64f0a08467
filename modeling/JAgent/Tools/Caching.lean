import JAgent.Lib.Lockstep
import JAgent.Tools.Executor

/-! # File calls through the idempotency cache

A run makes a sequence of `file_op` calls through `execute`, on the files of a local directory;
between two calls the operator may answer a request for confirmation.  The same calls made
directly on the backend are the machine it is compared with.

A call whose key is recorded is answered from the record and touches no file; a delete waits for
the operator; a large answer is written to a blob next to the files.  `TransparentCall` says, of
the state a call finds, that none of this shows, and `caching_transparent_iff` that the two runs
agree at every point exactly when every call finds such a state. -/

namespace JAgent

/-- A run of file calls: the directory, and an executor that accepts them.  Well-formed inputs
pass the schema and the whitelist, and the two guardrails of `file_op` are registered. -/
structure FileRun [Py] where
  dir : LocalDirectory
  executor : ToolExecutor FileSystem
  allowedTools : Option (List String) := none
  refusal : ScopeKind → Value → List Value → Option String
  schema_accepts : ∀ c : FileCall,
    executor.guardrails.schemaError fileOpInputSchema (.obj c.input) = none
  tool_allowed : (whitelistCheck allowedTools fileOp).passed = true
  destructive : executor.guardrails.registry "destructive" = some destructiveCheck
  scope : executor.guardrails.registry "scope" = some (scopeCheck dir.backend.resolve refusal)

/-- What happens in a run: a call, with the ids drawn for it, or an answer of the operator. -/
inductive FileMove where
  | call (c : FileCall) (toolCallId confirmationId : String)
  | answer (confirmationId : String) (confirmed : Bool) (operatorId : String)

/-- The output a call returned, if it returned one. -/
def CallPc.output? : CallPc → Option Value
  | .returned r => if r.status = .completed ∨ r.status = .idempotencyHit then some r.output else none
  | _ => none

/-- The value of an answer. -/
def Answer.value? : Answer → Option Value
  | .ok v => some v
  | .error _ => none

namespace FileRun
variable [Py] (r : FileRun)

/-- The arguments `execute` gets for a file call. -/
def callOf (c : FileCall) (toolCallId confirmationId : String) : Call FileSystem :=
  { toolName := "file_op", input := c.input, td := fileOp, toolFn := c.run r.dir.backend
    toolCallId, confirmationId, backend := some r.dir.backend, allowedTools := r.allowedTools }

/-- A move through the executor. -/
def viaExecutor (s : Shared FileSystem) : FileMove → Option Value × Shared FileSystem
  | .call c t k =>
    let (p, s') := r.executor.execute (r.callOf c t k) s
    (p.pc.output?, s')
  | .answer k confirmed operatorId =>
    (none, { s with log := s.log.confirmRun k confirmed operatorId })

/-- The same move directly on the backend. -/
def direct (fs : FileSystem) : FileMove → Option Value × FileSystem
  | .call c _ _ =>
    let (a, fs') := c.run r.dir.backend fs
    (a.value?, fs')
  | .answer .. => (none, fs)

/-- The idempotency key of a file call. -/
def fileKey (c : FileCall) : String :=
  r.executor.digest (keySeed "file_op" ["operation", "path", "content"] c.input)

/-- The recorded answer to a call. -/
def recorded (log : Log) (c : FileCall) : Option Value :=
  match log.findByIdempotencyKey .tool (r.fileKey c) with
  | some row => match row.payload with
    | .toolCompleted done => some done.output
    | _ => none
  | none => none

/-- The operator has confirmed a call. -/
def confirmed (log : Log) (c : FileCall) : Bool :=
  match log.findByIdempotencyKey .confirmation
      (if r.fileKey c = "" then "_noik_file_op" else r.fileKey c) with
  | some row => match row.payload with
    | .confirmationRequested request =>
      match log.findConfirmationById request.confirmationId with
      | some answer => answer.confirmed
      | none => false
    | _ => false
  | none => false

/-! ### When a call does not show the cache -/

/-- The files still are what the recorded answer of a call says: a read or list gets the answer
it got, a write finds the content it wrote, an append appends nothing to a file of the recorded
size.  A repeated delete never does. -/
def Unchanged (fs : FileSystem) (p : RelPath) (c : FileCall) (out : Value) : Prop :=
  match c.operation with
  | .read => ∃ bytes content, fs.node? p = some (.file bytes) ∧ readText bytes = some content ∧
      out = readAnswer c.path content
  | .write => fs.node? p = some (.file c.text.toByteArray) ∧ out = sizeAnswer c.path c.text.length
  | .append => c.text = "" ∧ ∃ bytes, fs.node? p = some (.file bytes) ∧
      out = sizeAnswer c.path bytes.size
  | .delete => False
  | .list => r.dir.list fs c.path = .ok (out, fs)

/-- Offloading the answer of a successful call adds no file: the answer is small enough, or its
blob cannot be written, or it is there already. -/
def AddsNoBlob (fs : FileSystem) (c : FileCall) : Prop :=
  ∀ v fs', c.run r.dir.backend fs = (.ok v, fs') → evaluate fileOp v = .ok none →
    r.executor.outputInlineMaxChars < (serialize v).length →
    ∀ a fs'', r.dir.write fs' (blobPath r.executor.digest v) (serialize v) = .ok (a, fs'') →
      ∃ q, r.dir.target (blobPath r.executor.digest v) = .ok q ∧
        fs'.node? q = some (.file (serialize v).toByteArray)

/-- The state a call has to find: if its path resolves, then either its answer is recorded and
the files are as recorded, or it is not recorded, a delete is confirmed and no blob is added. -/
def TransparentCall (s : Shared FileSystem) : FileMove → Prop
  | .answer .. => True
  | .call c _ _ => ∀ p, r.dir.target c.path = .ok p →
      match r.recorded s.log c with
      | some out => r.Unchanged s.world p c out
      | none => (c.operation = .delete → r.confirmed s.log c = true) ∧ r.AddsNoBlob s.world c

/-! ### One call through the executor -/

section chain
variable {r : FileRun} {c : FileCall} {t k : String} {s : Shared FileSystem} {p : RelPath}

theorem key_callOf : r.executor.key (r.callOf c t k) = some (r.fileKey c) := by
  unfold ToolExecutor.key idempotencyKey computeKey callOf
  simp only
  rw [c.effectiveIdempotencyKeyFields_input]
  rfl

theorem confirmKey_callOf : r.executor.confirmKey (r.callOf c t k) =
    if r.fileKey c = "" then "_noik_file_op" else r.fileKey c := by
  have hk : idempotencyKey r.executor.digest fileOp c.input = some (r.fileKey c) :=
    key_callOf (r := r) (c := c) (t := t) (k := k)
  unfold ToolExecutor.confirmKey JAgent.confirmKey callOf
  simp only [hk]
  rfl

theorem destructiveCheck_file (log : Log) (fs : FileSystem) : ∃ reason,
    destructiveCheck fileOp c.input [] log fs =
      .ok ⟨true, "destructive_op", reason, decide (c.operation = .delete)⟩ := by
  unfold destructiveCheck
  rw [c.resolveOperation_input]
  cases c with
  | mk op path content => cases op <;> cases content <;> exact ⟨_, rfl⟩

theorem scopeCheck_file (log : Log) (fs : FileSystem) :
    scopeCheck r.dir.backend.resolve r.refusal fileOp c.input [] log fs =
      match r.dir.target c.path with
      | .ok _ => .ok ⟨true, "scope", "", false⟩
      | .error e =>
        if e.kind = "PermissionError" then .ok ⟨false, "scope", e.text, false⟩ else .error e := by
  have hpath : Obj.get? c.input "path" = some (.str c.path) := by
    unfold FileCall.input
    cases c.content <;> rfl
  have hres : r.dir.backend.resolve (pyStr (.str c.path)) =
      (r.dir.target c.path).map r.dir.absolute := rfl
  unfold scopeCheck
  simp only [fileOp, scopeCheck.go, hpath, hres]
  cases r.dir.target c.path with
  | ok q => rfl
  | error e => rfl

/-- The guardrails of a file call come down to the scope check. -/
theorem guardrails_file (log : Log) (fs : FileSystem) : ∃ reason,
    r.executor.guardrails.run fileOp c.input log fs r.allowedTools =
      match scopeCheck r.dir.backend.resolve r.refusal fileOp c.input [] log fs with
      | .error e => .error e
      | .ok g => .ok [⟨true, "schema", "", false⟩,
          ⟨true, "destructive_op", reason, decide (c.operation = .delete)⟩, g] := by
  obtain ⟨reason, hd⟩ := destructiveCheck_file (c := c) log fs
  have hschema : schemaCheck r.executor.guardrails.schemaError fileOp c.input =
      ⟨true, "schema", "", false⟩ := by
    unfold schemaCheck
    rw [show fileOp.inputSchema = fileOpInputSchema from rfl, r.schema_accepts c]
  have hattached : fileOp.guardrails =
      [{ guardrailType := "destructive" }, { guardrailType := "scope" }] := rfl
  refine ⟨reason, ?_⟩
  unfold GuardrailRunner.run
  simp only [hschema, r.tool_allowed, hattached, GuardrailRunner.runAttached, r.destructive, r.scope,
    hd, Bool.not_true, Bool.false_eq_true, if_false, if_true]
  rw [if_pos (show fileOp.dependsOn.isEmpty = true from rfl)]
  cases scopeCheck r.dir.backend.resolve r.refusal fileOp c.input [] log fs with
  | error e => rfl
  | ok g => cases hg : g.passed <;> simp [hg]

/-- The call at one of its actions. -/
def at_ (r : FileRun) (c : FileCall) (t k tid : String) (pc : CallPc) : Proc FileSystem :=
  { call := r.callOf c t k, toolCallId := tid, pc }

/-- A call whose path resolves passes the guardrails; a delete asks for confirmation. -/
theorem stepCall_guarding (h : r.dir.target c.path = .ok p) :
    r.executor.stepCall (at_ r c t k t .guarding) s =
      (at_ r c t k t (.looking (decide (c.operation = .delete))), s) := by
  obtain ⟨reason, hg⟩ := guardrails_file (r := r) (c := c) s.log s.world
  rw [scopeCheck_file, h] at hg
  have hrun : r.executor.guardrails.run (r.callOf c t k).td (r.callOf c t k).input s.log s.world
      (r.callOf c t k).allowedTools = _ := hg
  simp only [ToolExecutor.stepCall, at_, hrun]
  simp [ToolExecutor.goto]

/-- A call whose path does not resolve is blocked, or `execute` raises. -/
theorem ends_unresolved {e : Raised} (h : r.dir.target c.path = .error e)
    {Q : Proc FileSystem → Shared FileSystem → Prop}
    (hQ : ∀ q log', q.pc.output? = none → (log' = s.log ∨ ∃ payload, log' = s.log.appendEvent payload) →
      Q q { s with log := log' }) :
    r.executor.Ends (at_ r c t k t .guarding) s Q := by
  obtain ⟨reason, hg⟩ := guardrails_file (r := r) (c := c) s.log s.world
  rw [scopeCheck_file, h] at hg
  have hrun : r.executor.guardrails.run (r.callOf c t k).td (r.callOf c t k).input s.log s.world
      (r.callOf c t k).allowedTools = _ := hg
  by_cases hk : e.kind = "PermissionError"
  · have hstep : r.executor.stepCall (at_ r c t k t .guarding) s =
        (at_ r c t k t (.blocked ⟨false, "scope", e.text, false⟩), s) := by
      simp only [ToolExecutor.stepCall, at_, hrun, hk]
      simp [ToolExecutor.goto]
    refine ToolExecutor.ends_step rfl hstep (ToolExecutor.ends_step rfl rfl ?_)
    refine ToolExecutor.ends_done rfl (hQ _ _ ?_ (.inr ⟨_, rfl⟩))
    simp [CallPc.output?, ToolExecutor.result]
  · have hstep : r.executor.stepCall (at_ r c t k t .guarding) s = (at_ r c t k t (.raised e), s) := by
      simp only [ToolExecutor.stepCall, at_, hrun, hk, if_false]
      rfl
    refine ToolExecutor.ends_step rfl hstep (ToolExecutor.ends_done rfl ?_)
    exact hQ _ _ rfl (.inl rfl)

/-- Every completion recorded under a key is a success. -/
def Records (log : Log) : Prop :=
  ∀ row ∈ log, row.payload.eventType = .tool → row.idempotencyKey ≠ none →
    ∃ done, row.payload = .toolCompleted done ∧ done.resultType = .success ∧
      evaluate fileOp done.output = .ok none

theorem Records.appendEvent {log : Log} (h : Records log) (payload : Payload) :
    Records (log.appendEvent payload) := by
  intro row hrow ht hk
  rcases Log.mem_appendEvent.mp hrow with hold | rfl
  · exact h row hold ht hk
  · exact absurd rfl hk

theorem Records.appendKeyed {log : Log} (h : Records log) {payload : Payload} {key : Option String}
    (hp : payload.eventType = .tool → ∃ done, payload = .toolCompleted done ∧
      done.resultType = .success ∧ evaluate fileOp done.output = .ok none) :
    Records (log.appendKeyed payload key) := by
  intro row hrow ht hk
  rcases Log.mem_of_mem_appendKeyed hrow with hold | rfl
  · exact h row hold ht hk
  · exact hp ht

theorem Records.confirmRun {log : Log} (h : Records log) (k : String) (b : Bool) (op : String) :
    Records (log.confirmRun k b op) := by
  unfold Log.confirmRun
  split
  · exact h.appendKeyed (by simp [Payload.eventType])
  · exact h

/-- A repeated invocation that changes nothing ends like the last one. -/
theorem ends_retry {a : Answer} {tid : String} {Q : Proc FileSystem → Shared FileSystem → Prop}
    (hrun : c.run r.dir.backend s.world = (a, s.world))
    (hexit : ∀ attempt, r.executor.afterInvoke (at_ r c t k tid (.invoking attempt)) attempt a =
        .invoking (attempt + 1) ∧ attempt ≤ 3 ∨
      r.executor.Ends (at_ r c t k tid
        (r.executor.afterInvoke (at_ r c t k tid (.invoking attempt)) attempt a)) s Q) :
    ∀ n attempt, 4 - attempt ≤ n → r.executor.Ends (at_ r c t k tid (.invoking attempt)) s Q := by
  have hstep : ∀ attempt, r.executor.stepCall (at_ r c t k tid (.invoking attempt)) s =
      (at_ r c t k tid (r.executor.afterInvoke (at_ r c t k tid (.invoking attempt)) attempt a), s) := by
    intro attempt
    have hfn : (r.callOf c t k).toolFn s.world = (a, s.world) := hrun
    simp only [ToolExecutor.stepCall, at_, hfn]
  intro n
  induction n with
  | zero =>
      intro attempt hn
      refine ToolExecutor.ends_step rfl (hstep attempt) ?_
      rcases hexit attempt with ⟨_, hle⟩ | hend
      · omega
      · exact hend
  | succ n ih =>
      intro attempt hn
      refine ToolExecutor.ends_step rfl (hstep attempt) ?_
      rcases hexit attempt with ⟨heq, hle⟩ | hend
      · rw [heq]
        exact ih (attempt + 1) (by omega)
      · exact hend

end chain

/-! ### One operation of the backend -/

section operations
variable {r : FileRun} {c : FileCall} {fs fs' : FileSystem} {v : Value}

/-- A structured output that counts as a success. -/
def Succeeds (v : Value) : Prop := evaluate fileOp v = .ok none ∧ structurallyUsable v = true

theorem succeeds_of_true {fields : Obj} : Succeeds (.obj (("success", .bool true) :: fields)) :=
  ⟨rfl, rfl⟩

theorem evaluate_missing (what path : String) : ∃ err,
    evaluate fileOp (missingAnswer what path) = .ok (some err) := ⟨_, rfl⟩

/-- What one operation answers: it raises, or it answers with a success, or it answers that the
target is missing; in the first and the last case the files stay as they are. -/
theorem run_cases (c : FileCall) (fs : FileSystem) :
    (∃ e, c.run r.dir.backend fs = (.error e, fs)) ∨
    (∃ v fs', c.run r.dir.backend fs = (.ok v, fs') ∧ Succeeds v) ∨
    ∃ v err, c.run r.dir.backend fs = (.ok v, fs) ∧ evaluate fileOp v = .ok (some err) := by
  have lift : ∀ o : Except Raised (Value × FileSystem),
      (∀ v fs', o = .ok (v, fs') → Succeeds v ∨
        (fs' = fs ∧ ∃ err, evaluate fileOp v = .ok (some err))) →
      (∃ e, answering o fs = (.error e, fs)) ∨
      (∃ v fs', answering o fs = (.ok v, fs') ∧ Succeeds v) ∨
      ∃ v err, answering o fs = (.ok v, fs) ∧ evaluate fileOp v = .ok (some err) := by
    intro o h
    cases o with
    | error e => exact .inl ⟨e, rfl⟩
    | ok vf =>
        obtain ⟨v, fs'⟩ := vf
        rcases h v fs' rfl with hs | ⟨rfl, err, hu⟩
        · exact .inr (.inl ⟨v, fs', rfl, hs⟩)
        · exact .inr (.inr ⟨v, err, rfl, hu⟩)
  unfold FileCall.run
  cases c.operation
  -- every branch of an operation raises, succeeds, or misses its target and keeps the files
  all_goals
    refine lift _ fun v fs' h => ?_
    simp only [LocalDirectory.read, LocalDirectory.write, LocalDirectory.append,
      LocalDirectory.delete, LocalDirectory.list] at h
    repeat' split at h
    all_goals cases h
    all_goals first
      | exact .inl succeeds_of_true
      | exact .inr ⟨rfl, evaluate_missing _ _⟩

end operations

/-! ### A call that is performed -/

/-- The files after the answer of a successful call has been offloaded, if it is large. -/
def offloaded (v : Value) (fs : FileSystem) : FileSystem :=
  if (serialize v).length ≤ r.executor.outputInlineMaxChars then fs
  else (r.dir.backend.write (blobPath r.executor.digest v) (serialize v) fs).2

/-- A call that is not answered from the record: the answer of the backend, and its files with
the blob of a large successful answer. -/
def performed (fs : FileSystem) (c : FileCall) : Option Value × FileSystem :=
  match c.run r.dir.backend fs with
  | (.ok v, fs') => (some v, if evaluate fileOp v = .ok none then r.offloaded v fs' else fs')
  | (.error _, fs') => (none, fs')

section performing
variable {r : FileRun} {c : FileCall} {t k tid : String} {s : Shared FileSystem}

/-- The end of a call: its output, the files and the records. -/
def Ended (out : Option Value) (fs : FileSystem) (q : Proc FileSystem) (s : Shared FileSystem) :
    Prop :=
  q.pc.output? = out ∧ s.world = fs ∧ Records s.log

/-- A success is offloaded and recorded. -/
theorem ends_offloading {v : Value} {n : ℕ} (hrec : Records s.log)
    (hv : evaluate fileOp v = .ok none) :
    r.executor.Ends (at_ r c t k tid (.offloading v n)) s
      (Ended (some v) (r.offloaded v s.world)) := by
  have record : ∀ (s' : Shared FileSystem) (persisted : Value), s'.world = r.offloaded v s.world →
      Records s'.log → evaluate fileOp persisted = .ok none →
      r.executor.Ends (at_ r c t k tid (.recording v persisted n)) s'
        (Ended (some v) (r.offloaded v s.world)) := by
    intro s' persisted hw hr hp
    refine ToolExecutor.ends_step rfl rfl (ToolExecutor.ends_done rfl ⟨?_, hw, ?_⟩)
    · simp [CallPc.output?, ToolExecutor.result]
    · exact hr.appendKeyed fun _ => ⟨_, rfl, rfl, hp⟩
  have hb : (r.callOf c t k).backend = some r.dir.backend := rfl
  by_cases hlen : (serialize v).length ≤ r.executor.outputInlineMaxChars
  · have hstep : r.executor.stepCall (at_ r c t k tid (.offloading v n)) s =
        (at_ r c t k tid (.recording v v n), s) := by
      simp only [ToolExecutor.stepCall, at_, hb, if_pos hlen, ToolExecutor.goto]
    refine ToolExecutor.ends_step rfl hstep (record s v ?_ hrec hv)
    rw [offloaded, if_pos hlen]
  · have hoff : r.offloaded v s.world =
        (r.dir.backend.write (blobPath r.executor.digest v) (serialize v) s.world).2 := by
      rw [offloaded, if_neg hlen]
    rcases hw : r.dir.backend.write (blobPath r.executor.digest v) (serialize v) s.world with
      ⟨a, world⟩
    rw [hw] at hoff
    cases a with
    | error e =>
        have hstep : r.executor.stepCall (at_ r c t k tid (.offloading v n)) s =
            (at_ r c t k tid (.recording v v n), { s with world }) := by
          simp only [ToolExecutor.stepCall, at_, hb, if_neg hlen, ToolExecutor.goto, hw]
        exact ToolExecutor.ends_step rfl hstep (record { s with world } v hoff.symm hrec hv)
    | ok a =>
        let blob := storedBlob r.executor.digest r.executor.outputInlineMaxChars v tid "file_op" none none
        have hstep : r.executor.stepCall (at_ r c t k tid (.offloading v n)) s =
            (at_ r c t k tid (.noting v blob n), { s with world }) := by
          simp only [ToolExecutor.stepCall, at_, hb, if_neg hlen, ToolExecutor.goto, hw]
          rfl
        refine ToolExecutor.ends_step rfl hstep (ToolExecutor.ends_step rfl rfl ?_)
        exact record _ _ hoff.symm (hrec.appendEvent _) rfl

/-- An exception ends a call without an output. -/
theorem ends_failing {e : Raised} (hrec : Records s.log) :
    r.executor.Ends (at_ r c t k tid (.failing e)) s (Ended none s.world) := by
  cases e with
  | timeout =>
      refine ToolExecutor.ends_step rfl rfl (ToolExecutor.ends_done rfl ⟨?_, rfl, hrec.appendEvent _⟩)
      simp [CallPc.output?, ToolExecutor.result]
  | confirmationNeeded tool cid =>
      refine ToolExecutor.ends_step rfl rfl (ToolExecutor.ends_done rfl ⟨?_, rfl, hrec⟩)
      simp [CallPc.output?, ToolExecutor.result]
  | error kind text =>
      refine ToolExecutor.ends_step rfl rfl (ToolExecutor.ends_done rfl ⟨?_, rfl, hrec.appendEvent _⟩)
      simp [CallPc.output?, ToolExecutor.result]

/-- **The invocations of a call** come to one operation of the backend: an operation that is
retried has changed nothing. -/
theorem ends_invoking (hrec : Records s.log) :
    r.executor.Ends (at_ r c t k tid (.invoking 1)) s
      (Ended (r.performed s.world c).1 (r.performed s.world c).2) := by
  have hpolicy : (r.callOf c t k).td.retryPolicy.maxRetries = 3 := rfl
  rcases run_cases (r := r) c s.world with ⟨e, hrun⟩ | ⟨v, fs', hrun, hv⟩ | ⟨v, err, hrun, hv⟩
  · have hperf : r.performed s.world c = (none, s.world) := by
      unfold performed
      rw [hrun]
    rw [hperf]
    refine ends_retry hrun (fun attempt => ?_) _ 1 le_rfl
    by_cases hr : shouldRetry attempt e.text (r.callOf c t k).td.retryPolicy = true
    · left
      have hle := ToolExecutor.attempt_le_of_shouldRetry hr
      rw [hpolicy] at hle
      refine ⟨?_, by omega⟩
      simp only [ToolExecutor.afterInvoke, at_]
      exact if_pos hr
    · right
      have hnext : r.executor.afterInvoke (at_ r c t k tid (.invoking attempt)) attempt (.error e) =
          .failing e := by
        simp only [ToolExecutor.afterInvoke, at_]
        exact if_neg hr
      rw [hnext]
      exact ends_failing hrec
  · have hperf : r.performed s.world c = (some v, r.offloaded v fs') := by
      unfold performed
      rw [hrun]
      simp only [if_pos hv.1]
    have hev : evaluate (r.callOf c t k).td v = .ok none := hv.1
    have hnext : r.executor.afterInvoke (at_ r c t k tid (.invoking 1)) 1 (.ok v) =
        .offloading v 0 := by
      simp [ToolExecutor.afterInvoke, ToolExecutor.afterOutput, at_, semanticRetryReason, hev, hv.2]
    have hstep : r.executor.stepCall (at_ r c t k tid (.invoking 1)) s =
        (at_ r c t k tid (.offloading v 0), { s with world := fs' }) := by
      have hfn : (r.callOf c t k).toolFn s.world = (.ok v, fs') := hrun
      rw [← hnext]
      simp only [ToolExecutor.stepCall, at_, hfn]
    rw [hperf]
    exact ToolExecutor.ends_step rfl hstep (ends_offloading hrec hv.1)
  · have hperf : r.performed s.world c = (some v, s.world) := by
      unfold performed
      rw [hrun]
      simp [hv]
    have hev : evaluate (r.callOf c t k).td v = .ok (some err) := hv
    obtain ⟨reason, hreason⟩ : ∃ reason, semanticRetryReason (r.callOf c t k).td
        (r.callOf c t k).toolName (r.callOf c t k).input v = .ok reason := by
      unfold semanticRetryReason
      rw [hev]
      simp only
      split_ifs <;> exact ⟨_, rfl⟩
    rw [hperf]
    refine ends_retry hrun (fun attempt => ?_) _ 1 le_rfl
    by_cases hr : (reason.isNone ||
        decide ((r.callOf c t k).td.retryPolicy.maxRetries < attempt)) = true
    · right
      have hnext : r.executor.afterInvoke (at_ r c t k tid (.invoking attempt)) attempt (.ok v) =
          .unsuccessful v err (attempt - 1) := by
        simp only [ToolExecutor.afterInvoke, at_, hreason, ToolExecutor.afterOutput, hev]
        exact if_pos hr
      rw [hnext]
      refine ToolExecutor.ends_step rfl rfl (ToolExecutor.ends_done rfl ⟨?_, rfl, hrec.appendEvent _⟩)
      simp [CallPc.output?, ToolExecutor.result]
    · left
      constructor
      · simp only [ToolExecutor.afterInvoke, at_, hreason]
        exact if_neg hr
      · rw [hpolicy] at hr
        simp only [Bool.or_eq_true, decide_eq_true_eq, not_or, not_lt] at hr
        omega

theorem ends_calling (hrec : Records s.log) :
    r.executor.Ends (at_ r c t k tid .calling) s
      (Ended (r.performed s.world c).1 (r.performed s.world c).2) := by
  refine ToolExecutor.ends_step rfl rfl ?_
  exact ends_invoking (s := ⟨_, s.world⟩) (hrec.appendEvent _)

end performing

/-! ### A call through the executor, case by case -/

section cases
variable {r : FileRun} {c : FileCall} {t k : String} {s : Shared FileSystem} {p : RelPath}

/-- What a call through the executor gives, as its end says. -/
theorem viaExecutor_of_ends {out : Option Value} {fs : FileSystem}
    (h : r.executor.Ends (at_ r c t k t .guarding) s (Ended out fs)) :
    (r.viaExecutor s (.call c t k)).1 = out ∧ (r.viaExecutor s (.call c t k)).2.world = fs ∧
      Records (r.viaExecutor s (.call c t k)).2.log := h.execute

/-- A path that does not resolve: no output, no change. -/
theorem viaExecutor_unresolved {e : Raised} (hrec : Records s.log)
    (h : r.dir.target c.path = .error e) :
    (r.viaExecutor s (.call c t k)).1 = none ∧ (r.viaExecutor s (.call c t k)).2.world = s.world ∧
      Records (r.viaExecutor s (.call c t k)).2.log := by
  apply viaExecutor_of_ends
  refine ends_unresolved h fun q log' hq hlog => ⟨hq, rfl, ?_⟩
  rcases hlog with rfl | ⟨payload, rfl⟩
  · exact hrec
  · exact hrec.appendEvent _

/-- The row a recorded answer comes from. -/
theorem recorded_some {out : Value} (hrec : Records s.log) (h : r.recorded s.log c = some out) :
    ∃ row done, s.log.findByIdempotencyKey .tool (r.fileKey c) = some row ∧
      row.payload = .toolCompleted done ∧ done.output = out ∧ evaluate fileOp out = .ok none := by
  unfold recorded at h
  split at h
  · next row hrow =>
      split at h
      · next done hdone =>
          obtain rfl := Option.some.inj h
          obtain ⟨hmem, htype, hkey⟩ := Log.findByIdempotencyKey_some hrow
          obtain ⟨done', hd', _, hev⟩ := hrec row hmem htype (by simp [hkey])
          rw [hdone] at hd'
          obtain rfl := Payload.toolCompleted.inj hd'
          exact ⟨row, done, hrow, hdone, rfl, hev⟩
      · cases h
  · cases h

/-- Without a recorded answer the lookup misses. -/
theorem recorded_none (hrec : Records s.log) (h : r.recorded s.log c = none) :
    s.log.findByIdempotencyKey .tool (r.fileKey c) = none := by
  cases hrow : s.log.findByIdempotencyKey .tool (r.fileKey c) with
  | none => rfl
  | some row =>
      obtain ⟨hmem, htype, hkey⟩ := Log.findByIdempotencyKey_some hrow
      obtain ⟨done, hd, _, _⟩ := hrec row hmem htype (by simp [hkey])
      simp [recorded, hrow, hd] at h

/-- A recorded answer is given back and nothing else happens. -/
theorem viaExecutor_recorded {out : Value} (hrec : Records s.log)
    (hp : r.dir.target c.path = .ok p) (h : r.recorded s.log c = some out) :
    (r.viaExecutor s (.call c t k)).1 = some out ∧
      (r.viaExecutor s (.call c t k)).2.world = s.world ∧
      Records (r.viaExecutor s (.call c t k)).2.log := by
  obtain ⟨row, done, hrow, hdone, hout, _⟩ := recorded_some hrec h
  apply viaExecutor_of_ends
  refine ToolExecutor.ends_step rfl (stepCall_guarding hp) ?_
  have hkey : r.executor.key (r.callOf c t k) = some (r.fileKey c) := key_callOf
  refine ToolExecutor.ends_step rfl rfl ?_
  simp only [at_, hkey, hrow, hdone, ToolExecutor.goto]
  refine ToolExecutor.ends_done rfl ⟨?_, rfl, hrec⟩
  simp [CallPc.output?, ToolExecutor.result, hout]

/-- The lookup of a call that is not recorded leads to the gate or to the call. -/
theorem stepCall_looking (h : s.log.findByIdempotencyKey .tool (r.fileKey c) = none) (b : Bool) :
    r.executor.stepCall (at_ r c t k t (.looking b)) s =
      (at_ r c t k t (if b then .requesting else .calling), s) := by
  have hkey : r.executor.key (r.callOf c t k) = some (r.fileKey c) := key_callOf
  have hconf : (r.callOf c t k).td.effectiveRequiresConfirmation (r.callOf c t k).input = false :=
    c.effectiveRequiresConfirmation_input
  simp only [ToolExecutor.stepCall, at_, hkey, h, ToolExecutor.goto, ToolExecutor.afterMiss, hconf,
    Bool.false_or]

/-- The confirmation gate holds a call back that the operator has not confirmed. -/
theorem ends_requesting_held (hrec : Records s.log) (hconf : r.confirmed s.log c = false) :
    r.executor.Ends (at_ r c t k t .requesting) s (Ended none s.world) := by
  have hck : r.executor.confirmKey (r.callOf c t k) = _ := confirmKey_callOf
  unfold confirmed at hconf
  rw [← hck] at hconf
  cases hrow : s.log.findByIdempotencyKey .confirmation (r.executor.confirmKey (r.callOf c t k)) with
  | none =>
      have hstep : r.executor.stepCall (at_ r c t k t .requesting) s = (at_ r c t k t .asking, s) := by
        simp only [ToolExecutor.stepCall, at_, hrow, ToolExecutor.goto]
      refine ToolExecutor.ends_step rfl hstep (ToolExecutor.ends_step rfl rfl ?_)
      refine ToolExecutor.ends_done rfl ⟨?_, rfl, ?_⟩
      · simp [CallPc.output?, ToolExecutor.result]
      · dsimp only
        apply hrec.appendKeyed
        intro htype
        cases htype
  | some row =>
      rw [hrow] at hconf
      cases hreq : row.payload with
      | confirmationRequested request =>
          have hstep : r.executor.stepCall (at_ r c t k t .requesting) s =
              (at_ r c t k t (.answering request), s) := by
            simp only [ToolExecutor.stepCall, at_, hrow, hreq, ToolExecutor.goto]
          refine ToolExecutor.ends_step rfl hstep ?_
          simp only [hreq] at hconf
          cases hans : s.log.findConfirmationById request.confirmationId with
          | none =>
              refine ToolExecutor.ends_step rfl rfl ?_
              simp only [at_, hans, ToolExecutor.goto]
              refine ToolExecutor.ends_done rfl ⟨?_, rfl, hrec⟩
              simp [CallPc.output?, ToolExecutor.result]
          | some answer =>
              simp only [hans] at hconf
              have hstep : r.executor.stepCall (at_ r c t k t (.answering request)) s =
                  (at_ r c t k t .denying, s) := by
                simp [ToolExecutor.stepCall, at_, hans, hconf, ToolExecutor.goto]
              refine ToolExecutor.ends_step rfl hstep (ToolExecutor.ends_step rfl rfl ?_)
              refine ToolExecutor.ends_done rfl ⟨?_, rfl, hrec.appendEvent _⟩
              simp [CallPc.output?, ToolExecutor.result]
      | _ =>
          refine ToolExecutor.ends_step rfl rfl ?_
          simp only [at_, hrow, hreq, ToolExecutor.goto]
          exact ToolExecutor.ends_done rfl ⟨rfl, rfl, hrec⟩

/-- The gate lets a confirmed call through. -/
theorem ends_requesting_confirmed {Q : Proc FileSystem → Shared FileSystem → Prop}
    (hconf : r.confirmed s.log c = true)
    (hQ : ∀ tid, r.executor.Ends (at_ r c t k tid .calling) s Q) :
    r.executor.Ends (at_ r c t k t .requesting) s Q := by
  have hck : r.executor.confirmKey (r.callOf c t k) = _ := confirmKey_callOf
  unfold confirmed at hconf
  rw [← hck] at hconf
  split at hconf
  · next row hrow =>
      split at hconf
      · next request hreq =>
          split at hconf
          · next answer hans =>
              have hstep : r.executor.stepCall (at_ r c t k t .requesting) s =
                  (at_ r c t k t (.answering request), s) := by
                simp only [ToolExecutor.stepCall, at_, hrow, hreq, ToolExecutor.goto]
              have hgo : r.executor.stepCall (at_ r c t k t (.answering request)) s =
                  (at_ r c t k request.toolCallId .calling, s) := by
                simp [ToolExecutor.stepCall, at_, hans, hconf]
              exact ToolExecutor.ends_step rfl hstep (ToolExecutor.ends_step rfl hgo (hQ _))
          · cases hconf
      · cases hconf
  · cases hconf

/-- An unconfirmed delete waits or is refused: no output, no change. -/
theorem viaExecutor_held (hrec : Records s.log) (hp : r.dir.target c.path = .ok p)
    (h : r.recorded s.log c = none) (hop : c.operation = .delete)
    (hconf : r.confirmed s.log c = false) :
    (r.viaExecutor s (.call c t k)).1 = none ∧
      (r.viaExecutor s (.call c t k)).2.world = s.world ∧
      Records (r.viaExecutor s (.call c t k)).2.log := by
  apply viaExecutor_of_ends
  refine ToolExecutor.ends_step rfl (stepCall_guarding hp) ?_
  refine ToolExecutor.ends_step rfl (stepCall_looking (recorded_none hrec h) _) ?_
  rw [if_pos (by simp [hop])]
  exact ends_requesting_held hrec hconf

/-- Every other call is performed. -/
theorem viaExecutor_performed (hrec : Records s.log) (hp : r.dir.target c.path = .ok p)
    (h : r.recorded s.log c = none) (hconf : c.operation = .delete → r.confirmed s.log c = true) :
    (r.viaExecutor s (.call c t k)).1 = (r.performed s.world c).1 ∧
      (r.viaExecutor s (.call c t k)).2.world = (r.performed s.world c).2 ∧
      Records (r.viaExecutor s (.call c t k)).2.log := by
  apply viaExecutor_of_ends
  refine ToolExecutor.ends_step rfl (stepCall_guarding hp) ?_
  refine ToolExecutor.ends_step rfl (stepCall_looking (recorded_none hrec h) _) ?_
  by_cases hop : c.operation = .delete
  · rw [if_pos (by simp [hop])]
    exact ends_requesting_confirmed (hconf hop) fun tid => ends_calling hrec
  · rw [if_neg (by simp [hop])]
    exact ends_calling hrec

end cases

/-! ### The comparison of one call -/

section compare
variable {r : FileRun} {c : FileCall} {t k : String} {fs : FileSystem} {p : RelPath} {out : Value}

theorem direct_call : r.direct fs (.call c t k) =
    ((c.run r.dir.backend fs).1.value?, (c.run r.dir.backend fs).2) := rfl

/-- A success is never the answer about a missing target. -/
theorem ne_missing {what path : String} (hout : evaluate fileOp out = .ok none) :
    out ≠ missingAnswer what path := by
  rintro rfl
  obtain ⟨err, herr⟩ := evaluate_missing what path
  rw [herr] at hout
  cases hout

/-- A call that finds the files as recorded is answered as recorded and changes nothing. -/
theorem run_of_unchanged (hp : r.dir.target c.path = .ok p) (h : r.Unchanged fs p c out) :
    c.run r.dir.backend fs = (.ok out, fs) := by
  unfold Unchanged at h
  unfold FileCall.run
  cases hop : c.operation with
  | read =>
      simp only [hop] at h
      obtain ⟨bytes, content, hnode, htext, rfl⟩ := h
      have hread : r.dir.read fs c.path = .ok (readAnswer c.path content, fs) := by
        simp only [LocalDirectory.read, hp, hnode, htext]
      exact congrArg (answering · fs) hread
  | write =>
      simp only [hop] at h
      obtain ⟨hnode, rfl⟩ := h
      have hwrite : r.dir.write fs c.path c.text =
          .ok (sizeAnswer c.path c.text.length, fs) := by
        have hstore : r.dir.store fs p (fun _ => c.text.toByteArray) = .ok fs :=
          LocalDirectory.store_self hnode rfl
        simp only [LocalDirectory.write, hp, hstore]
      exact congrArg (answering · fs) hwrite
  | append =>
      simp only [hop] at h
      obtain ⟨htext, bytes, hnode, rfl⟩ := h
      have happend : r.dir.append fs c.path c.text = .ok (sizeAnswer c.path bytes.size, fs) := by
        have hstore : r.dir.store fs p (· ++ c.text.toByteArray) = .ok fs :=
          LocalDirectory.store_self hnode (append_bytes_self.mpr htext)
        simp only [LocalDirectory.append, hp, hstore, LocalDirectory.sizeAt, hnode]
      exact congrArg (answering · fs) happend
  | delete => simp only [hop] at h
  | list =>
      simp only [hop] at h
      exact congrArg (answering · fs) h

/-- A success that keeps every file finds the files as recorded. -/
theorem unchanged_of_run {fs' : FileSystem} (hp : r.dir.target c.path = .ok p)
    (hout : evaluate fileOp out = .ok none) (hrun : c.run r.dir.backend fs = (.ok out, fs'))
    (hsame : fs.Same fs') : r.Unchanged fs p c out := by
  have hok : ∀ o : Except Raised (Value × FileSystem), answering o fs = (.ok out, fs') →
      o = .ok (out, fs') := by
    intro o ho
    unfold answering at ho
    split at ho <;> simp_all
  unfold Unchanged
  unfold FileCall.run at hrun
  cases hop : c.operation with
  | read =>
      simp only [hop] at hrun
      have h := hok _ hrun
      simp only [LocalDirectory.read, hp] at h
      repeat' split at h
      · next bytes hnode _ content htext =>
          cases h
          exact ⟨bytes, content, hnode, htext, rfl⟩
      · cases h
      · cases h
        exact absurd rfl (ne_missing hout)
  | write =>
      simp only [hop] at hrun
      have h := hok _ hrun
      simp only [LocalDirectory.write, hp] at h
      split at h
      · cases h
      · next fs₁ hstore =>
          cases h
          obtain ⟨bytes, hnode, hedit⟩ :=
            (LocalDirectory.store_same_iff hstore).mp fun q => (hsame q).symm
          exact ⟨hedit ▸ hnode, rfl⟩
  | append =>
      simp only [hop] at hrun
      have h := hok _ hrun
      simp only [LocalDirectory.append, hp] at h
      split at h
      · cases h
      · next fs₁ hstore =>
          cases h
          obtain ⟨bytes, hnode, hedit⟩ :=
            (LocalDirectory.store_same_iff hstore).mp fun q => (hsame q).symm
          refine ⟨append_bytes_self.mp hedit, bytes, hnode, ?_⟩
          simp only [LocalDirectory.sizeAt, ← hsame p, hnode]
  | delete =>
      simp only [hop] at hrun
      have h := hok _ hrun
      simp only [LocalDirectory.delete, hp] at h
      split at h
      · next bytes hnode =>
          cases h
          have hgone : (fs.remove p).node? p = none :=
            FileSystem.node?_remove_self (by simp [hnode])
          rw [← hsame p, hnode] at hgone
          cases hgone
      · cases h
        exact ne_missing hout rfl
  | list =>
      simp only [hop] at hrun
      have h := hok _ hrun
      have hfs : fs' = fs := by
        simp only [LocalDirectory.list, hp] at h
        repeat' split at h
        all_goals cases h
        all_goals rfl
      rw [hfs] at h
      exact h

/-- A write keeps every file exactly when it raises or the file holds the text already. -/
theorem write_same_iff {path text : String} :
    (r.dir.backend.write path text fs).2.Same fs ↔
      ∀ a fs'', r.dir.write fs path text = .ok (a, fs'') →
        ∃ q, r.dir.target path = .ok q ∧ fs.node? q = some (.file text.toByteArray) := by
  have hback : r.dir.backend.write path text fs = answering (r.dir.write fs path text) fs := rfl
  rw [hback]
  cases hw : r.dir.write fs path text with
  | error e => exact ⟨fun _ _ _ h => (by cases h), fun _ _ => rfl⟩
  | ok vf =>
      obtain ⟨v, fs'⟩ := vf
      have hfiles : (answering (.ok (v, fs')) fs).2 = fs' := rfl
      rw [hfiles]
      unfold LocalDirectory.write at hw
      split at hw
      · cases hw
      next q hq =>
        split at hw
        · cases hw
        next fs₁ hstore =>
          obtain ⟨_, rfl⟩ := Prod.mk.inj (Except.ok.inj hw)
          rw [LocalDirectory.store_same_iff hstore]
          constructor
          · rintro ⟨bytes, hnode, hedit⟩ _ _ _
            exact ⟨q, hq, hedit ▸ hnode⟩
          · intro h
            obtain ⟨q', hq', hnode⟩ := h v fs₁ rfl
            rw [hq] at hq'
            obtain rfl := Except.ok.inj hq'
            exact ⟨_, hnode, rfl⟩

/-- A write that keeps every file gives the same files back. -/
theorem write_eq_of_same {path text : String} (h : (r.dir.backend.write path text fs).2.Same fs) :
    (r.dir.backend.write path text fs).2 = fs := by
  have hback : r.dir.backend.write path text fs = answering (r.dir.write fs path text) fs := rfl
  rw [hback] at h ⊢
  cases hw : r.dir.write fs path text with
  | error e => rfl
  | ok vf =>
      obtain ⟨v, fs'⟩ := vf
      obtain ⟨q, hq, hnode⟩ := write_same_iff.mp (hback ▸ h) v fs' hw
      have hstore : r.dir.store fs q (fun _ => text.toByteArray) = .ok fs :=
        LocalDirectory.store_self hnode rfl
      simp only [LocalDirectory.write, hq, hstore] at hw
      obtain ⟨_, rfl⟩ := Prod.mk.inj (Except.ok.inj hw)
      rfl

/-- A performed call has the answer of the direct one. -/
theorem performed_output : (r.performed fs c).1 = (r.direct fs (.call c t k)).1 := by
  rw [direct_call]
  unfold performed
  rcases c.run r.dir.backend fs with ⟨a, fs'⟩
  cases a <;> rfl

/-- **A performed call** keeps the files of the direct one exactly when it adds no blob. -/
theorem performed_same_iff :
    (r.performed fs c).2.Same (r.direct fs (.call c t k)).2 ↔ r.AddsNoBlob fs c := by
  rw [direct_call]
  unfold performed AddsNoBlob
  rcases c.run r.dir.backend fs with ⟨a, fs'⟩
  cases a with
  | error e => simp [FileSystem.Same]
  | ok v =>
      simp only [Prod.mk.injEq, Except.ok.injEq, and_imp]
      by_cases hv : evaluate fileOp v = .ok none
      · rw [if_pos hv]
        unfold offloaded
        split_ifs with hlen
        · constructor
          · rintro _ v' fs'' rfl rfl _ hlt
            omega
          · intro _ q
            rfl
        · rw [write_same_iff]
          constructor
          · rintro h v' fs'' rfl rfl _ _
            exact h
          · intro h
            exact h v fs' rfl rfl hv (by omega)
      · rw [if_neg hv]
        constructor
        · rintro _ v' fs'' rfl rfl hv'
          exact absurd hv' hv
        · intro _ q
          rfl

/-- A performed call that adds no blob leaves the files of the direct one. -/
theorem performed_of_addsNoBlob (h : r.AddsNoBlob fs c) :
    (r.performed fs c).2 = (r.direct fs (.call c t k)).2 := by
  have hsame := (performed_same_iff (t := t) (k := k)).mpr h
  rw [direct_call] at hsame ⊢
  unfold performed at hsame ⊢
  rcases hrun : c.run r.dir.backend fs with ⟨a, fs'⟩
  rw [hrun] at hsame
  cases a with
  | error e => rfl
  | ok v =>
      simp only at hsame ⊢
      split_ifs at hsame ⊢ with hv
      · unfold offloaded at hsame ⊢
        split_ifs at hsame ⊢ with hlen
        · rfl
        · exact write_eq_of_same hsame
      · rfl

end compare

/-! ### The comparison of runs -/

section runs
variable (r : FileRun)

theorem records_viaExecutor {s : Shared FileSystem} (hrec : Records s.log) (m : FileMove) :
    Records (r.viaExecutor s m).2.log := by
  cases m with
  | answer k b op => exact hrec.confirmRun k b op
  | call c t k =>
      cases hp : r.dir.target c.path with
      | error e => exact (viaExecutor_unresolved hrec hp).2.2
      | ok p =>
          cases hout : r.recorded s.log c with
          | some out => exact (viaExecutor_recorded hrec hp hout).2.2
          | none =>
              by_cases hconf : c.operation = .delete → r.confirmed s.log c = true
              · exact (viaExecutor_performed hrec hp hout hconf).2.2
              · push Not at hconf
                exact (viaExecutor_held hrec hp hout hconf.1 (by simpa using hconf.2)).2.2

/-- Directly, a path that does not resolve gives no output and changes nothing. -/
theorem direct_unresolved {c : FileCall} {t k : String} {fs : FileSystem} {e : Raised}
    (hp : r.dir.target c.path = .error e) : r.direct fs (.call c t k) = (none, fs) := by
  have hrun : c.run r.dir.backend fs = (.error e, fs) := by
    unfold FileCall.run
    cases c.operation
    all_goals
      simp only [LocalDirectory.backend, LocalDirectory.read, LocalDirectory.write,
        LocalDirectory.append, LocalDirectory.delete, LocalDirectory.list, hp, answering]
  rw [direct_call, hrun]
  rfl

/-- Directly, a delete whose path resolves always has an output. -/
theorem direct_delete {c : FileCall} {t k : String} {fs : FileSystem} {p : RelPath}
    (hp : r.dir.target c.path = .ok p) (hop : c.operation = .delete) :
    (r.direct fs (.call c t k)).1 ≠ none := by
  rw [direct_call]
  unfold FileCall.run
  simp only [hop, LocalDirectory.backend, LocalDirectory.delete, hp]
  split <;> simp [answering, Answer.value?]

/-- One move gives the same output and the same files exactly when it is transparent. -/
theorem move_agrees_iff (s : Shared FileSystem) (m : FileMove) (hrec : Records s.log) :
    (r.viaExecutor s m).1 = (r.direct s.world m).1 ∧
      (r.viaExecutor s m).2.world.Same (r.direct s.world m).2 ↔ r.TransparentCall s m := by
  cases m with
  | answer k b op => exact ⟨fun _ => trivial, fun _ => ⟨rfl, fun _ => rfl⟩⟩
  | call c t k =>
      simp only [TransparentCall]
      cases hp : r.dir.target c.path with
      | error e =>
          obtain ⟨ho, hw, _⟩ := viaExecutor_unresolved (t := t) (k := k) hrec hp
          rw [ho, hw, r.direct_unresolved hp]
          refine ⟨fun _ q hq => ?_, fun _ => ⟨rfl, fun _ => rfl⟩⟩
          cases hq
      | ok p =>
          have hone : ∀ P : RelPath → Prop, (∀ q, (Except.ok p : Except Raised RelPath) = .ok q → P q) ↔
              P p := by
            intro P
            refine ⟨fun h => h p rfl, fun h q hq => ?_⟩
            obtain rfl := Except.ok.inj hq
            exact h
          rw [hone]
          cases hout : r.recorded s.log c with
          | some out =>
              obtain ⟨ho, hw, _⟩ := viaExecutor_recorded (t := t) (k := k) hrec hp hout
              obtain ⟨_, _, _, _, _, hev⟩ := recorded_some hrec hout
              rw [ho, hw]
              simp only
              constructor
              · rintro ⟨ho', hsame⟩
                rw [direct_call] at ho' hsame
                rcases hrun : c.run r.dir.backend s.world with ⟨a, fs'⟩
                rw [hrun] at ho' hsame
                cases a with
                | error e => cases ho'
                | ok v =>
                    obtain rfl : out = v := by simpa [Answer.value?] using ho'
                    exact unchanged_of_run hp hev hrun hsame
              · intro h
                rw [direct_call, run_of_unchanged hp h]
                exact ⟨rfl, fun _ => rfl⟩
          | none =>
              simp only
              by_cases hconf : c.operation = .delete → r.confirmed s.log c = true
              · obtain ⟨ho, hw, _⟩ := viaExecutor_performed (t := t) (k := k) hrec hp hout hconf
                rw [ho, hw, performed_same_iff]
                exact ⟨fun h => ⟨hconf, h.2⟩, fun h => ⟨performed_output, h.2⟩⟩
              · have hheld := hconf
                push Not at hheld
                obtain ⟨ho, _, _⟩ :=
                  viaExecutor_held (t := t) (k := k) hrec hp hout hheld.1 (by simpa using hheld.2)
                rw [ho]
                constructor
                · rintro ⟨hnone, _⟩
                  exact absurd hnone.symm (r.direct_delete hp hheld.1)
                · intro h
                  exact absurd h.1 hconf

/-- A transparent move leaves the files of the direct one. -/
theorem world_of_transparent (s : Shared FileSystem) (m : FileMove) (hrec : Records s.log)
    (h : r.TransparentCall s m) : (r.viaExecutor s m).2.world = (r.direct s.world m).2 := by
  cases m with
  | answer k b op => rfl
  | call c t k =>
      cases hp : r.dir.target c.path with
      | error e =>
          rw [(viaExecutor_unresolved hrec hp).2.1, r.direct_unresolved hp]
      | ok p =>
          have hcall := h p hp
          cases hout : r.recorded s.log c with
          | some out =>
              rw [hout] at hcall
              rw [(viaExecutor_recorded hrec hp hout).2.1]
              rw [direct_call, run_of_unchanged hp hcall]
          | none =>
              rw [hout] at hcall
              rw [(viaExecutor_performed hrec hp hout hcall.1).2.1]
              exact performed_of_addsNoBlob hcall.2

/-- **When the cache does not show.**  In a run of file calls through the executor, after every
prefix the outputs and the files are those of the same calls made directly on the backend,
exactly when every call finds a state in which the cache, the confirmation gate and the
offloading of answers do not show. -/
theorem caching_transparent_iff (fs : FileSystem) (moves : List FileMove) :
    (∀ n, Lib.Agree r.viaExecutor r.direct Shared.world FileSystem.Same ⟨[], fs⟩ fs (moves.take n)) ↔
      Lib.Along r.viaExecutor r.TransparentCall ⟨[], fs⟩ moves := by
  have hinit : Records ([] : Log) := by
    intro row hrow
    cases hrow
  exact Lib.lockstep_iff (fun _ _ => rfl) (fun s m hrec => r.records_viaExecutor hrec m)
    (fun s m hrec => r.move_agrees_iff s m hrec) (fun s m hrec => r.world_of_transparent s m hrec)
    moves (s := ⟨[], fs⟩) hinit

end runs

end FileRun

/-! ### A write that is not made -/

section scenario
attribute [local instance] asciiPy

/-- Drop the `..` components of a path together with what they step over. -/
def normpath : List String → List String :=
  List.foldl (fun done part => if part = ".." then done.dropLast else done ++ [part]) []

/-- A workspace without links, and an executor with the two guardrails of `file_op`. -/
def plainRun : FileRun where
  dir := { root := ["ws"], realpath := fun parts => .ok (normpath parts), decodeError := fun _ => "" }
  executor :=
    { digest := id
      guardrails :=
        { schemaError := fun _ _ => none
          dependencyCheck := fun _ _ _ => ⟨true, "dependency", "", false⟩
          registry := fun kind =>
            if kind = "destructive" then some destructiveCheck
            else if kind = "scope" then
              some (scopeCheck (LocalDirectory.backend
                { root := ["ws"], realpath := fun parts => .ok (normpath parts)
                  decodeError := fun _ => "" }).resolve fun _ _ _ => none)
            else none } }
  refusal := fun _ _ _ => none
  schema_accepts _ := rfl
  tool_allowed := rfl
  destructive := rfl
  scope := rfl

/-- Write one content, then another, then the first again. -/
def writeBack : List FileMove :=
  [FileMove.call ⟨.write, "a.txt", some "one"⟩ "t1" "c1", .call ⟨.write, "a.txt", some "two"⟩ "t2" "c2",
    .call ⟨.write, "a.txt", some "one"⟩ "t3" "c3"]

/-- An empty directory. -/
def noFiles : FileSystem := ⟨⟨[], by simp⟩, fun p h => absurd rfl h⟩

/-- The second write of the first content is answered from the record: through the executor the
file keeps the other content. -/
theorem repeated_write_is_suppressed :
    ¬ Lib.Agree plainRun.viaExecutor plainRun.direct Shared.world FileSystem.Same ⟨[], noFiles⟩
      noFiles writeBack := by
  rintro ⟨_, hsame⟩
  have ha := hsame ["a.txt"]
  revert ha
  decide +kernel

end scenario
end JAgent
