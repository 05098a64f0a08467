import JAgent.Tools.Approval

/-! # How often one call invokes the tool function

Retries are made inside one call of `execute`, for two kinds of failure.  An output that reports a
transient failure is retried only if the action is read-only, for the retry must not repeat a side
effect.  An exception is retried as the policy of the tool says, and nothing asks what the action does:
the default policy retries every exception three times.

`toolInvocations` counts the invocations of one call.  A call that passes the checks before it invokes
the tool function once, and once more exactly when that invocation is retried; under a negative number of
retries it invokes nothing.  `repeats_only_reads_iff` says when a repetition is one of a read. -/

namespace JAgent

/-- The tool function is not invoked any more. -/
def CallPc.pastInvoking : CallPc → Bool
  | .guarding | .looking _ | .requesting | .answering _ | .calling | .invoking _ => false
  | _ => true

namespace ToolExecutor
variable {W : Type} [Py] (x : ToolExecutor W)

/-- The invocations of the tool function among the next `n` actions of a call. -/
def invocations : ℕ → Proc W → Shared W → ℕ
  | 0, _, _ => 0
  | n + 1, p, s => (if isInvoking p.pc then 1 else 0) + invocations n (x.stepCall p s).1 (x.stepCall p s).2

/-- The invocations of the tool function in one call of `execute`. -/
def toolInvocations (c : Call W) (s : Shared W) : ℕ :=
  x.invocations (CallPc.guarding.rank (retries c)) (start c) s

/-! ### The checks before the call -/

/-- Nothing is recorded under the key of the call. -/
def unrecorded (c : Call W) (log : Log) : Bool :=
  match x.key c with
  | none => true
  | some k => (log.findByIdempotencyKey .tool k).isNone

/-- The operator has confirmed the call. -/
def approvedBefore (c : Call W) (log : Log) : Bool :=
  match log.findByIdempotencyKey .confirmation (x.confirmKey c) with
  | none => false
  | some row => match row.payload with
    | .confirmationRequested request => match log.findConfirmationById request.confirmationId with
      | some answer => answer.confirmed
      | none => false
    | _ => false

/-- The call passes all checks: no guardrail refuses it, nothing is recorded under its key, and if a
confirmation is needed the operator has given it. -/
def admits (c : Call W) (s : Shared W) : Bool :=
  match x.guardrails.run c.td c.input s.log s.world c.allowedTools with
  | .error _ => false
  | .ok results => (results.find? fun r => !r.passed).isNone && x.unrecorded c s.log &&
      (!(c.td.effectiveRequiresConfirmation c.input || results.any fun r => r.triggersConfirmation) ||
        x.approvedBefore c s.log)

/-- The first invocation raises an exception that the policy retries. -/
def raisesRetried (c : Call W) (w : W) : Bool :=
  match (c.toolFn w).1 with
  | .error e => shouldRetry 1 e.text c.td.retryPolicy
  | .ok _ => false

/-! ### Counting -/

variable {x}

/-- An action that is no invocation. -/
theorem invocations_skip {n : ℕ} {p p' : Proc W} {s s' : Shared W} (h : isInvoking p.pc = false)
    (hs : x.stepCall p s = (p', s')) : x.invocations (n + 1) p s = x.invocations n p' s' := by
  rw [invocations, h, hs]
  simp

theorem pastInvoking_stepCall {p : Proc W} {s : Shared W} (h : p.pc.pastInvoking = true) :
    (x.stepCall p s).1.pc.pastInvoking = true := by
  obtain ⟨c, tid, pc⟩ := p
  cases pc with
  | guarding => cases h
  | looking confirm => cases h
  | requesting => cases h
  | answering request => cases h
  | calling => cases h
  | invoking attempt => cases h
  | _ =>
      simp only [stepCall, goto, emit]
      repeat' split
      all_goals rfl

/-- A call that is past its invocations makes none. -/
theorem invocations_past {p : Proc W} {s : Shared W} (h : p.pc.pastInvoking = true) (n : ℕ) :
    x.invocations n p s = 0 := by
  induction n generalizing p s with
  | zero => rfl
  | succ n ih =>
      have hnot : isInvoking p.pc = false := by
        cases hpc : p.pc <;> simp [hpc, CallPc.pastInvoking, isInvoking] at h ⊢
      rw [invocations, hnot, ih (pastInvoking_stepCall h)]
      rfl

theorem isInvoking_stepCall {p : Proc W} {s : Shared W} (hneg : p.call.td.retryPolicy.maxRetries < 0)
    (hnot : isInvoking p.pc = false) : isInvoking (x.stepCall p s).1.pc = false := by
  rw [Bool.eq_false_iff, ne_eq, isInvoking_iff]
  rintro ⟨n, hnext⟩
  cases hf : p.pc.finished with
  | true =>
      have hsame := x.runCall_finished 1 (s := s) hf
      have hpc : (x.stepCall p s).1 = p := congrArg Prod.fst hsame
      rw [hpc] at hnext
      rw [hnext] at hnot
      cases hnot
  | false =>
      obtain hpc | ⟨m, hpc⟩ := (x.origin_stepCall p s hf).invoking hnext
      · obtain ⟨c, tid, pc⟩ := p
        obtain rfl : pc = .calling := hpc
        have hafter : afterCalled ⟨c, tid, .calling⟩ = .invoking n := hnext
        rw [afterCalled, if_pos hneg] at hafter
        cases hafter
      · rw [hpc] at hnot
        cases hnot

/-- Under a negative number of retries a call invokes nothing. -/
theorem invocations_of_neg {p : Proc W} {s : Shared W} (hneg : p.call.td.retryPolicy.maxRetries < 0)
    (hnot : isInvoking p.pc = false) (n : ℕ) : x.invocations n p s = 0 := by
  induction n generalizing p s with
  | zero => rfl
  | succ n ih =>
      rw [invocations, hnot, ih (by rwa [stepCall_call]) (isInvoking_stepCall hneg hnot)]
      rfl

/-- The call goes on to its first invocation, with the world as it is, or, if it is not admitted, invokes
nothing. -/
def Starts (x : ToolExecutor W) (admitted : Bool) (n : ℕ) (p : Proc W) (s : Shared W) : Prop :=
  if admitted then ∃ tid s' m, s'.world = s.world ∧ 2 ≤ m ∧
    x.invocations n p s = x.invocations m ⟨p.call, tid, .invoking 1⟩ s'
  else x.invocations n p s = 0

theorem Starts.stop {p : Proc W} {s : Shared W} (h : p.pc.pastInvoking = true) (n : ℕ) :
    x.Starts false n p s := invocations_past h n

/-- The rule for one action before the first invocation. -/
theorem Starts.step {admitted : Bool} {n : ℕ} {p p' : Proc W} {s s' : Shared W}
    (hnot : isInvoking p.pc = false) (hs : x.stepCall p s = (p', s')) (hworld : s'.world = s.world)
    (h : x.Starts admitted n p' s') : x.Starts admitted (n + 1) p s := by
  have hcall : p'.call = p.call := by
    rw [← x.stepCall_call p s, hs]
  unfold Starts at h ⊢
  rw [invocations_skip hnot hs]
  cases admitted with
  | false => exact h
  | true =>
      obtain ⟨tid, s'', m, hw, hm, heq⟩ := h
      refine ⟨tid, s'', m, hw.trans hworld, hm, ?_⟩
      rw [← hcall]
      exact heq

/-- The event of the call comes right before the first invocation. -/
theorem starts_calling {n : ℕ} (hn : 2 ≤ n) {c : Call W} (hpos : 0 ≤ c.td.retryPolicy.maxRetries)
    (tid : String) (s : Shared W) : x.Starts true (n + 1) ⟨c, tid, .calling⟩ s := by
  have hs : ∃ s', s'.world = s.world ∧
      x.stepCall ⟨c, tid, .calling⟩ s = (⟨c, tid, afterCalled ⟨c, tid, .calling⟩⟩, s') :=
    ⟨(x.stepCall ⟨c, tid, .calling⟩ s).2, rfl, rfl⟩
  obtain ⟨s', hworld, hs⟩ := hs
  rw [afterCalled_of_nonneg hpos] at hs
  exact .step rfl hs hworld ⟨tid, s', n, rfl, hn, rfl⟩

/-- A call that needs a confirmation goes on only with one. -/
theorem starts_requesting {n : ℕ} (hn : 2 ≤ n) {c : Call W} (hpos : 0 ≤ c.td.retryPolicy.maxRetries)
    (tid : String) (s : Shared W) :
    x.Starts (x.approvedBefore c s.log) (n + 3) ⟨c, tid, .requesting⟩ s := by
  unfold approvedBefore
  cases hfind : s.log.findByIdempotencyKey .confirmation (x.confirmKey c) with
  | none =>
      have hs : x.stepCall ⟨c, tid, .requesting⟩ s = (⟨c, tid, .asking⟩, s) := by
        simp only [stepCall, hfind, goto]
      exact .step rfl hs rfl (.stop rfl _)
  | some row =>
      simp only
      split
      next request hrow =>
        have hs : x.stepCall ⟨c, tid, .requesting⟩ s = (⟨c, tid, .answering request⟩, s) := by
          simp only [stepCall, hfind, hrow, goto]
        refine .step rfl hs rfl ?_
        cases hanswer : s.log.findConfirmationById request.confirmationId with
        | none =>
            have hs' : ∃ r, x.stepCall ⟨c, tid, .answering request⟩ s = (⟨c, tid, .returned r⟩, s) := by
              simp only [stepCall, hanswer, goto]
              exact ⟨_, rfl⟩
            obtain ⟨r, hs'⟩ := hs'
            exact .step rfl hs' rfl (.stop rfl _)
        | some answer =>
            simp only
            cases hconf : answer.confirmed with
            | true =>
                have hs' : x.stepCall ⟨c, tid, .answering request⟩ s =
                    (⟨c, request.toolCallId, .calling⟩, s) := by
                  simp only [stepCall, hanswer, hconf, if_true]
                exact .step rfl hs' rfl (starts_calling hn hpos request.toolCallId s)
            | false =>
                have hs' : x.stepCall ⟨c, tid, .answering request⟩ s = (⟨c, tid, .denying⟩, s) := by
                  simp only [stepCall, hanswer, hconf, Bool.false_eq_true, if_false, goto]
                exact .step rfl hs' rfl (.stop rfl _)
      next hno =>
        have hs : ∃ e, x.stepCall ⟨c, tid, .requesting⟩ s = (⟨c, tid, .raised e⟩, s) := by
          simp only [stepCall, hfind, goto]
          exact ⟨_, rfl⟩
        obtain ⟨e, hs⟩ := hs
        exact .step rfl hs rfl (.stop rfl _)

/-- A call whose key is not recorded goes on. -/
theorem starts_afterMiss {n : ℕ} (hn : 2 ≤ n) {c : Call W} (hpos : 0 ≤ c.td.retryPolicy.maxRetries)
    (tid : String) (confirm : Bool) (s : Shared W) :
    x.Starts (!(c.td.effectiveRequiresConfirmation c.input || confirm) || x.approvedBefore c s.log) (n + 3)
      ⟨c, tid, afterMiss ⟨c, tid, .looking confirm⟩ confirm⟩ s := by
  unfold afterMiss
  cases hneed : c.td.effectiveRequiresConfirmation c.input || confirm with
  | true =>
      simp only [if_true, Bool.not_true, Bool.false_or]
      exact starts_requesting hn hpos tid s
  | false =>
      simp only [Bool.false_eq_true, if_false, Bool.not_false, Bool.true_or]
      exact starts_calling (n := n + 2) (by omega) hpos tid s

/-- The lookup of the key. -/
theorem starts_looking {n : ℕ} (hn : 2 ≤ n) {c : Call W} (hpos : 0 ≤ c.td.retryPolicy.maxRetries)
    (tid : String) (confirm : Bool) (s : Shared W) :
    x.Starts (x.unrecorded c s.log && (!(c.td.effectiveRequiresConfirmation c.input || confirm) ||
      x.approvedBefore c s.log)) (n + 4) ⟨c, tid, .looking confirm⟩ s := by
  unfold unrecorded
  have hmiss := starts_afterMiss hn hpos tid confirm s (x := x)
  cases hkey : x.key c with
  | none =>
      simp only [Bool.true_and]
      refine .step rfl ?_ rfl hmiss
      simp only [stepCall, hkey, goto]
  | some k =>
      simp only
      cases hfind : s.log.findByIdempotencyKey .tool k with
      | none =>
          simp only [Option.isNone_none, Bool.true_and]
          refine .step rfl ?_ rfl hmiss
          simp only [stepCall, hkey, hfind, goto]
      | some row =>
          simp only [Option.isNone_some, Bool.false_and]
          have hs : ∃ pc, pc.pastInvoking = true ∧
              x.stepCall ⟨c, tid, .looking confirm⟩ s = (⟨c, tid, pc⟩, s) := by
            simp only [stepCall, hkey, hfind, goto]
            split
            · exact ⟨_, rfl, rfl⟩
            · exact ⟨_, rfl, rfl⟩
          obtain ⟨pc, hpast, hs⟩ := hs
          exact .step rfl hs rfl (.stop hpast _)

/-- **The checks before a call**: it goes on to its first invocation exactly when it is admitted. -/
theorem starts_execute {n : ℕ} (hn : 2 ≤ n) {c : Call W} (hpos : 0 ≤ c.td.retryPolicy.maxRetries)
    (s : Shared W) :
    x.Starts (x.admits c s) (n + 5) (start c) s := by
  unfold admits
  cases hrun : x.guardrails.run c.td c.input s.log s.world c.allowedTools with
  | error e =>
      have hs : x.stepCall (start c) s = (⟨c, c.toolCallId, .raised e⟩, s) := by
        simp only [stepCall, start, hrun, goto]
      exact .step rfl hs rfl (.stop rfl _)
  | ok results =>
      simp only
      cases hfind : results.find? fun r => !r.passed with
      | some r =>
          simp only [Option.isNone_some, Bool.false_and]
          have hs : x.stepCall (start c) s = (⟨c, c.toolCallId, .blocked r⟩, s) := by
            simp only [stepCall, start, hrun, hfind, goto]
          exact .step rfl hs rfl (.stop rfl _)
      | none =>
          simp only [Option.isNone_none, Bool.true_and]
          have hs : x.stepCall (start c) s =
              (⟨c, c.toolCallId, .looking (results.any fun r => r.triggersConfirmation)⟩, s) := by
            simp only [stepCall, start, hrun, hfind, goto]
          exact .step rfl hs rfl (starts_looking hn hpos c.toolCallId _ s)

/-! ### The first invocation -/

/-- After an invocation the tool function is invoked again, or never again. -/
theorem afterInvoke_cases (p : Proc W) (attempt : ℕ) (a : Answer) :
    x.afterInvoke p attempt a = .invoking (attempt + 1) ∨ (x.afterInvoke p attempt a).pastInvoking = true := by
  unfold afterInvoke afterOutput
  repeat' split
  all_goals first
    | exact Or.inl rfl
    | exact Or.inr rfl

/-- The tool function is invoked more than once exactly when the first invocation is retried. -/
theorem one_lt_invocations {m : ℕ} (hm : 2 ≤ m) (c : Call W) (tid : String) (s : Shared W) :
    1 < x.invocations m ⟨c, tid, .invoking 1⟩ s ↔
      x.afterInvoke ⟨c, tid, .invoking 1⟩ 1 (c.toolFn s.world).1 = .invoking 2 := by
  obtain ⟨k, rfl⟩ := Nat.exists_eq_add_of_le hm
  have hfirst : x.invocations (2 + k) ⟨c, tid, .invoking 1⟩ s = 1 + x.invocations (k + 1)
      ⟨c, tid, x.afterInvoke ⟨c, tid, .invoking 1⟩ 1 (c.toolFn s.world).1⟩
      (x.stepCall ⟨c, tid, .invoking 1⟩ s).2 := by
    rw [show 2 + k = (k + 1) + 1 by omega]
    rfl
  rw [hfirst]
  rcases @afterInvoke_cases _ _ x ⟨c, tid, .invoking 1⟩ 1 (c.toolFn s.world).1 with hagain | hpast
  · have htwo : x.afterInvoke ⟨c, tid, .invoking 1⟩ 1 (c.toolFn s.world).1 = .invoking 2 := hagain
    rw [htwo]
    have hsecond : 1 ≤ x.invocations (k + 1) ⟨c, tid, .invoking 2⟩ (x.stepCall ⟨c, tid, .invoking 1⟩ s).2 :=
      Nat.le_add_right 1 _
    exact ⟨fun _ => rfl, fun _ => by omega⟩
  · rw [invocations_past hpast]
    constructor
    · intro h
      omega
    · intro h
      rw [h] at hpast
      cases hpast

/-- An output of an action that is not read-only is never retried. -/
theorem semanticRetryReason_of_not_readOnly {td : ToolDefinition} {toolName : String} {input : Obj}
    {output : Value} {reason : Option String} (hro : isReadOnlyAction toolName input [] = false)
    (h : semanticRetryReason td toolName input output = .ok reason) : reason = none := by
  unfold semanticRetryReason at h
  split at h
  · cases h
  · cases h
    rfl
  · rw [hro] at h
    simp only [Bool.not_false, if_true] at h
    split_ifs at h
    all_goals
      cases h
      rfl

/-- An action that is not read-only is invoked again exactly when the invocation raises an exception
that the policy retries. -/
theorem afterInvoke_again_iff {c : Call W} {tid : String} {w : W}
    (hro : isReadOnlyAction c.toolName c.input [] = false) :
    x.afterInvoke ⟨c, tid, .invoking 1⟩ 1 (c.toolFn w).1 = .invoking 2 ↔ raisesRetried c w = true := by
  unfold raisesRetried
  cases hanswer : (c.toolFn w).1 with
  | error e =>
      simp only [afterInvoke]
      split_ifs with hretry
      · exact ⟨fun _ => hretry, fun _ => rfl⟩
      · exact ⟨(fun h => by cases h), fun h => absurd h hretry⟩
  | ok output =>
      refine ⟨fun h => ?_, fun h => by cases h⟩
      simp only [afterInvoke] at h
      split at h
      next => cases h
      next reason hreason =>
        obtain rfl := semanticRetryReason_of_not_readOnly hro hreason
        simp only [Option.isNone_none, Bool.true_or, if_true] at h
        have hrank := x.rank_afterOutput ⟨c, tid, .invoking 1⟩ output (1 - 1) 0
        rw [h] at hrank
        simp [CallPc.rank] at hrank

omit [Py] in
theorem raisesRetried_of_neg {c : Call W} (hneg : c.td.retryPolicy.maxRetries < 0) (w : W) :
    raisesRetried c w = false := by
  unfold raisesRetried
  split
  · rw [shouldRetry, if_pos]
    omega
  · rfl

variable (x)

/-- **One call repeats only reads**, exactly when the action is read-only, or the checks stop the call,
or its first invocation raises no exception that the policy retries. -/
theorem repeats_only_reads_iff (c : Call W) (s : Shared W) :
    (1 < x.toolInvocations c s → isReadOnlyAction c.toolName c.input [] = true) ↔
      (isReadOnlyAction c.toolName c.input [] = true ∨ x.admits c s = false ∨
        raisesRetried c s.world = false) := by
  unfold toolInvocations
  cases hro : isReadOnlyAction c.toolName c.input [] with
  | true => simp
  | false =>
      by_cases hneg : c.td.retryPolicy.maxRetries < 0
      · -- the loop is empty, and no exception is retried
        have hzero : x.invocations (CallPc.guarding.rank (retries c)) (start c) s = 0 :=
          invocations_of_neg hneg rfl _
        have hnone : raisesRetried c s.world = false := raisesRetried_of_neg hneg s.world
        simp [hzero, hnone]
      have hstart : x.Starts (x.admits c s) (CallPc.guarding.rank (retries c)) (start c) s := by
        have hstart' := @starts_execute _ _ x (retries c + 6) (by omega) c (not_lt.mp hneg) s
        exact hstart'
      cases hadm : x.admits c s with
      | false =>
          rw [hadm] at hstart
          have hzero : x.invocations (CallPc.guarding.rank (retries c)) (start c) s = 0 := hstart
          simp [hzero]
      | true =>
          rw [hadm] at hstart
          obtain ⟨tid, s', m, hworld, hm, hcount⟩ := hstart
          have hmore : 1 < x.invocations (CallPc.guarding.rank (retries c)) (start c) s ↔
              raisesRetried c s.world = true := by
            rw [hcount, ← hworld]
            exact (one_lt_invocations hm c tid s').trans (afterInvoke_again_iff hro)
          rw [hmore]
          cases raisesRetried c s.world <;> simp

end ToolExecutor

/-! ### A message that is sent four times -/

section scenario
attribute [local instance] asciiPy

/-- A server that takes the message and breaks the connection before it answers. -/
def sendAndBreak (toolCallId : String) : Call ℕ :=
  { sendMessage toolCallId with
    toolFn := fun n => (.error (.error "ConnectionError" "connection reset by peer"), n + 1) }

/-- The default policy sends the message four times, although sending is no read. -/
theorem broken_send_is_repeated :
    remoteExecutor.toolInvocations (sendAndBreak "t1") ⟨[], 0⟩ = 4 ∧
      ¬(1 < remoteExecutor.toolInvocations (sendAndBreak "t1") ⟨[], 0⟩ →
        isReadOnlyAction (sendAndBreak "t1").toolName (sendAndBreak "t1").input [] = true) := by
  decide +kernel

end scenario
end JAgent
