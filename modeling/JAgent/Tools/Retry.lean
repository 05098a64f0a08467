import JAgent.Lib.Attempts
import JAgent.Tools.Executor

/-! # Retries

`execute_with_retry` invokes a function up to a number of times that its policy gives.  An exception is
retried when the policy names its text, a returned result when the semantic check gives a reason; both kinds
take from one budget.  Between two invocations it waits, for a time that doubles.

A policy is a record of unconstrained integers.  A negative number of retries makes the loop empty: nothing
is invoked, and the statement after the loop raises `None`.  A base of the waiting time far outside of what a
float holds makes the computation of a wait raise.  `retry_accounting_iff` says that otherwise the budget is
kept and the caller gets what the last invocation gave.

`runCall_afterCalled` connects this to the executor: the invocations of a call are those of one
`execute_with_retry` under the policy of its tool. -/

namespace JAgent

/-- What an invocation of `fn` does: it returns, raises an `Exception`, or is left by an exception of
another kind, such as a cancellation. -/
inductive InvocationOutcome (α ε : Type) where
  | returned (result : α)
  | raised (exc : ε)
  | interrupted (exc : ε)

/-- The conversion of an `int` to a `float` raises `OverflowError`. -/
@[irreducible] def floatOverflows (n : ℤ) : Bool := 2 ^ 1024 - 2 ^ 970 ≤ n.natAbs

/-- `RetryRunner._backoff_ms`; `none` when the base is too large for a float.  `jitter` stands for
`int(base * 0.25 * (random.random() * 2 - 1))`. -/
def backoffMs (attempt : ℕ) (policy : RetryPolicy) (jitter : ℤ → ℤ) : Option ℤ :=
  let base := policy.backoffBaseMs * 2 ^ (attempt - 1)
  if floatOverflows base then none else some (max 0 (base + jitter base))

/-- The call of `asyncio.sleep` after an attempt gets its argument, `backoff_ms / 1000.0`. -/
def canWait (attempt : ℕ) (policy : RetryPolicy) (jitter : ℤ → ℤ) : Bool :=
  match backoffMs attempt policy jitter with
  | none => false
  | some ms => !floatOverflows ms

/-- The local variables of `execute_with_retry`, and the number of invocations so far. -/
structure RetryLocals (ε : Type) where
  lastError : Option ε := none
  retryCount : ℕ := 0
  invocations : ℕ := 0

/-- How `execute_with_retry` ends: it returns a result, an exception of `fn` or of the check leaves it, a
wait cannot be computed, or it comes to the statement after the loop. -/
inductive RetryEnd (α ε : Type) where
  | returned (result : α) (retryCount : ℕ)
  | raised (exc : ε)
  | overflow
  | afterLoop (lastError : Option ε)
deriving DecidableEq

structure RetryRun (α ε : Type) where
  invocations : ℕ
  ending : RetryEnd α ε
deriving DecidableEq

/-- One call of `execute_with_retry`: the outcome of each invocation of `fn` and of each call of the check by
the number of the invocation, `str` of an exception, and the jitter of each wait. -/
structure RetryCall (α ε : Type) where
  policy : RetryPolicy
  fn : ℕ → InvocationOutcome α ε
  semanticRetryCheck : Option (ℕ → α → Except ε (Option String))
  text : ε → String
  jitter : ℕ → ℤ → ℤ

namespace RetryCall
variable {α ε : Type} (r : RetryCall α ε)

/-- The wait at the end of the body. -/
def sleep (attempt : ℕ) (st : RetryLocals ε) : Except (RetryRun α ε) (RetryLocals ε) :=
  if canWait attempt r.policy (r.jitter attempt) then .ok st else .error ⟨st.invocations, .overflow⟩

/-- The body of the loop. -/
def body (attempt : ℕ) (st : RetryLocals ε) : Except (RetryRun α ε) (RetryLocals ε) :=
  let st := { st with invocations := st.invocations + 1 }
  match r.fn st.invocations with
  | .interrupted exc => .error ⟨st.invocations, .raised exc⟩
  | .raised exc =>
    if !shouldRetry attempt (r.text exc) r.policy then .error ⟨st.invocations, .raised exc⟩
    else r.sleep attempt { st with lastError := some exc, retryCount := st.retryCount + 1 }
  | .returned result => match r.semanticRetryCheck with
    | none => .error ⟨st.invocations, .returned result st.retryCount⟩
    | some check => match check st.invocations result with
      | .error exc => .error ⟨st.invocations, .raised exc⟩
      | .ok reason =>
        if reason.isNone || r.policy.maxRetries < attempt then
          .error ⟨st.invocations, .returned result st.retryCount⟩
        else r.sleep attempt { st with retryCount := st.retryCount + 1 }

/-- `execute_with_retry`: `range(1, policy.max_retries + 2)` has `max_retries + 1` attempts, and none when
this is not positive. -/
def executeWithRetry : RetryRun α ε :=
  match Lib.attempts r.body 1 (r.policy.maxRetries + 1).toNat {} with
  | .error run => run
  | .ok st => ⟨st.invocations, .afterLoop st.lastError⟩

/-! ### One attempt -/

/-- What `fn` and the check do at an attempt asks for another one. -/
def retried (n : ℕ) : Bool :=
  match r.fn n with
  | .interrupted _ => false
  | .raised exc => shouldRetry n (r.text exc) r.policy
  | .returned result => match r.semanticRetryCheck with
    | none => false
    | some check => match check n result with
      | .ok (some _) => n ≤ r.policy.maxRetries
      | _ => false

/-- The check raises on the result of the attempt. -/
def checkRaises (n : ℕ) : Bool :=
  match r.fn n, r.semanticRetryCheck with
  | .returned result, some check => match check n result with
    | .error _ => true
    | .ok _ => false
  | _, _ => false

/-- The attempt is retried, and its wait can be computed. -/
def goesOn (n : ℕ) : Bool := r.retried n && canWait n r.policy (r.jitter n)

/-- How the run ends at an attempt after which it does not go on. -/
def endAt (n : ℕ) : RetryRun α ε where
  invocations := n
  ending :=
    if r.retried n then .overflow
    else match r.fn n with
      | .interrupted exc | .raised exc => .raised exc
      | .returned result => match r.semanticRetryCheck with
        | none => .returned result (n - 1)
        | some check => match check n result with
          | .error exc => .raised exc
          | .ok _ => .returned result (n - 1)

/-- Each attempt has invoked `fn` once and, if another attempt follows, has counted a retry. -/
def Counted (n : ℕ) (st : RetryLocals ε) : Prop := st.invocations + 1 = n ∧ st.retryCount + 1 = n

variable {r}

theorem retried_le {n : ℕ} (h : r.retried n = true) : (n : ℤ) ≤ r.policy.maxRetries := by
  unfold retried at h
  split at h
  · cases h
  · exact ToolExecutor.attempt_le_of_shouldRetry h
  · split at h
    · cases h
    · split at h
      · exact of_decide_eq_true h
      · cases h

theorem checkRaises_of_retried {n : ℕ} (h : r.retried n = true) : r.checkRaises n = false := by
  unfold retried at h
  unfold checkRaises
  cases hfn : r.fn n with
  | interrupted exc => rfl
  | raised exc => rfl
  | returned result =>
      cases hcheck : r.semanticRetryCheck with
      | none => rfl
      | some check =>
          simp only [hfn, hcheck] at h ⊢
          cases hreason : check n result with
          | error exc => simp [hreason] at h
          | ok reason => rfl

theorem retried_of_goesOn {n : ℕ} (h : r.goesOn n = true) : r.retried n = true := by
  rw [goesOn, Bool.and_eq_true] at h
  exact h.1

theorem goesOn_of_canWait {n : ℕ} (h : canWait n r.policy (r.jitter n) = true) :
    r.goesOn n = r.retried n := by
  rw [goesOn, h, Bool.and_true]

/-- **One attempt** waits when it is retried, and ends the run when it is not. -/
theorem body_cases {n : ℕ} {st : RetryLocals ε} (hst : Counted n st) :
    (r.retried n = true ∧ ∃ lastError, r.body n st = r.sleep n ⟨lastError, n, n⟩) ∨
      r.retried n = false ∧ r.body n st = .error (r.endAt n) := by
  obtain ⟨hinvocations, hcount⟩ := hst
  have hprev : st.retryCount = n - 1 := by omega
  rw [body, endAt]
  simp only [hinvocations, hcount]
  cases hfn : r.fn n with
  | interrupted exc =>
      have hr : r.retried n = false := by rw [retried, hfn]
      refine .inr ⟨hr, ?_⟩
      rw [hr]
      rfl
  | raised exc =>
      have hr : r.retried n = shouldRetry n (r.text exc) r.policy := by rw [retried, hfn]
      dsimp only
      rw [← hr]
      cases r.retried n with
      | true => exact .inl ⟨rfl, some exc, if_neg Bool.false_ne_true⟩
      | false => exact .inr ⟨rfl, if_pos rfl⟩
  | returned result =>
      cases hcheck : r.semanticRetryCheck with
      | none =>
          have hr : r.retried n = false := by simp only [retried, hfn, hcheck]
          refine .inr ⟨hr, ?_⟩
          rw [hr, hprev]
          rfl
      | some check =>
          dsimp only
          cases hreason : check n result with
          | error exc =>
              have hr : r.retried n = false := by simp only [retried, hfn, hcheck, hreason]
              refine .inr ⟨hr, ?_⟩
              rw [hr]
              rfl
          | ok reason =>
              have hr : r.retried n = !(reason.isNone || r.policy.maxRetries < n) := by
                cases reason with
                | none =>
                    simp only [retried, hfn, hcheck, hreason, Option.isNone_none, Bool.true_or,
                      Bool.not_true]
                | some why =>
                    simp only [retried, hfn, hcheck, hreason, Option.isNone_some, Bool.false_or, ← not_lt,
                      decide_not]
              dsimp only
              cases hstop : reason.isNone || decide (r.policy.maxRetries < n) with
              | true =>
                  rw [hstop] at hr
                  refine .inr ⟨hr, ?_⟩
                  rw [hr, hprev]
                  rfl
              | false =>
                  rw [hstop] at hr
                  exact .inl ⟨hr, st.lastError, if_neg Bool.false_ne_true⟩

/-- **What the body does at each attempt.** -/
theorem tries_body : Lib.Tries r.body Counted r.goesOn r.endAt where
  on n st hst hgo := by
    rw [goesOn, Bool.and_eq_true] at hgo
    obtain ⟨-, lastError, hbody⟩ | ⟨hr, -⟩ := body_cases (r := r) hst
    · rw [hbody, sleep, if_pos hgo.2]
      exact ⟨_, rfl, rfl, rfl⟩
    · rw [hgo.1] at hr
      cases hr
  off n st hst hgo := by
    obtain ⟨hr, lastError, hbody⟩ | ⟨-, hbody⟩ := body_cases (r := r) hst
    · -- the wait cannot be computed
      rw [goesOn, hr, Bool.true_and] at hgo
      rw [hbody, sleep, hgo, endAt, hr]
      rfl
    · exact hbody

/-! ### The run -/

/-- **A run ends at the first attempt after which it does not go on**, within its budget. -/
theorem exists_executeWithRetry (h : 0 ≤ r.policy.maxRetries) :
    ∃ n, Lib.FirstStop r.goesOn 1 n ∧ (n : ℤ) ≤ r.policy.maxRetries + 1 ∧ r.executeWithRetry = r.endAt n := by
  obtain ⟨n, hn, hlt⟩ | hall := Lib.firstStop_or r.goesOn 1 (r.policy.maxRetries + 1).toNat
  · have hstart : Counted 1 ({} : RetryLocals ε) := ⟨rfl, rfl⟩
    refine ⟨n, hn, by omega, ?_⟩
    rw [executeWithRetry, tries_body.leaves hstart hn hlt]
  · -- the last attempt of the budget is not retried
    have hlast := retried_le (retried_of_goesOn (hall (r.policy.maxRetries + 1).toNat (by omega) (by omega)))
    omega

theorem executeWithRetry_of_neg (h : r.policy.maxRetries < 0) :
    r.executeWithRetry = ⟨0, .afterLoop none⟩ := by
  have hempty : (r.policy.maxRetries + 1).toNat = 0 := by omega
  rw [executeWithRetry, hempty]
  rfl

/-! ### The accounting -/

variable (r)

/-- The caller gets what the last invocation gave: its result with the number of the others, or its
exception. -/
def GivesLast (run : RetryRun α ε) : Prop :=
  (∃ result, r.fn run.invocations = .returned result ∧
    run.ending = .returned result (run.invocations - 1)) ∨
  ∃ exc, (r.fn run.invocations = .raised exc ∨ r.fn run.invocations = .interrupted exc) ∧
    run.ending = .raised exc

/-- The accounting of retries. -/
structure Accounts (run : RetryRun α ε) : Prop where
  least : 1 ≤ run.invocations
  most : (run.invocations : ℤ) ≤ max 0 r.policy.maxRetries + 1
  last : r.GivesLast run
  inLoop : ∀ lastError, run.ending ≠ .afterLoop lastError

/-- The number of retries is not negative, and at no attempt that the run comes to does the check raise or
is the wait too long for a float. -/
structure Sound : Prop where
  nonneg : 0 ≤ r.policy.maxRetries
  attempts : ∀ n, 1 ≤ n → (∀ k, 1 ≤ k → k < n → r.retried k = true) →
    r.checkRaises n = false ∧ (r.retried n = true → canWait n r.policy (r.jitter n) = true)

variable {r}

theorem GivesLast.inLoop {run : RetryRun α ε} (h : r.GivesLast run) (lastError : Option ε) :
    run.ending ≠ .afterLoop lastError := by
  obtain ⟨result, -, hend⟩ | ⟨exc, -, hend⟩ := h
  all_goals
    rw [hend]
    intro heq
    cases heq

/-- What an attempt that ends the run gives. -/
theorem givesLast_endAt {n : ℕ} :
    r.GivesLast (r.endAt n) ↔ r.checkRaises n = false ∧ r.retried n = false := by
  rw [GivesLast, endAt]
  cases hr : r.retried n with
  | true => simp
  | false =>
      simp only [Bool.false_eq_true, if_false, and_true]
      rw [checkRaises]
      cases hfn : r.fn n with
      | interrupted exc => simp
      | raised exc => simp
      | returned result =>
          cases hcheck : r.semanticRetryCheck with
          | none => simp
          | some check =>
              cases hreason : check n result with
              | error exc => simp [hreason]
              | ok reason => simp [hreason]

/-- The attempts of a run are sound exactly when its last one is. -/
theorem sound_iff {n : ℕ} (h : 0 ≤ r.policy.maxRetries) (hn : Lib.FirstStop r.goesOn 1 n) :
    r.Sound ↔ r.checkRaises n = false ∧ r.retried n = false := by
  have hbefore : ∀ k, 1 ≤ k → k < n → r.retried k = true :=
    fun k hle hlt => retried_of_goesOn (hn.before k hle hlt)
  constructor
  · intro hsound
    obtain ⟨hcheck, hwait⟩ := hsound.attempts n hn.le hbefore
    refine ⟨hcheck, ?_⟩
    cases hr : r.retried n with
    | false => rfl
    | true =>
        have hstops := hn.stops
        rw [goesOn, hr, hwait hr] at hstops
        cases hstops
  · rintro ⟨hcheck, hr⟩
    refine ⟨h, fun m hm hall => ?_⟩
    obtain hlt | rfl | hgt := Nat.lt_trichotomy m n
    · have hgo := hn.before m hm hlt
      rw [goesOn, Bool.and_eq_true] at hgo
      exact ⟨checkRaises_of_retried hgo.1, fun _ => hgo.2⟩
    · exact ⟨hcheck, fun hretried => absurd (hretried.symm.trans hr) (by decide)⟩
    · -- the run does not come to this attempt
      rw [hall n hn.le hgt] at hr
      cases hr

end RetryCall

/-- **The retries are accounted for** exactly when the number of retries is not negative, no check of the run
raises, and every wait of the run can be computed. -/
theorem retry_accounting_iff {α ε : Type} (r : RetryCall α ε) : r.Accounts r.executeWithRetry ↔ r.Sound := by
  by_cases hneg : r.policy.maxRetries < 0
  · -- the loop is empty
    constructor
    · intro haccounts
      have hleast := haccounts.least
      rw [RetryCall.executeWithRetry_of_neg hneg] at hleast
      cases hleast
    · intro hsound
      have hnonneg := hsound.nonneg
      omega
  · have hnonneg := not_lt.mp hneg
    obtain ⟨n, hn, hle, hrun⟩ := RetryCall.exists_executeWithRetry hnonneg
    rw [RetryCall.sound_iff hnonneg hn, ← RetryCall.givesLast_endAt, hrun]
    constructor
    · exact RetryCall.Accounts.last
    · intro hlast
      refine ⟨hn.le, ?_, hlast, hlast.inLoop⟩
      show (n : ℤ) ≤ max 0 r.policy.maxRetries + 1
      omega

/-- A function that would answer, under a policy with a negative number of retries. -/
def neverAsked : RetryCall String String where
  policy := { maxRetries := -1 }
  fn _ := .returned "answer"
  semanticRetryCheck := none
  text exc := exc
  jitter _ _ := 0

/-- Nothing is invoked, and `raise last_error` raises `None`. -/
theorem negative_retries_invoke_nothing :
    neverAsked.executeWithRetry = ⟨0, .afterLoop none⟩ ∧
      ¬neverAsked.Accounts neverAsked.executeWithRetry := by
  have hrun : neverAsked.executeWithRetry = ⟨0, .afterLoop none⟩ :=
    RetryCall.executeWithRetry_of_neg (by decide)
  refine ⟨hrun, fun haccounts => ?_⟩
  have hleast := haccounts.least
  rw [hrun] at hleast
  cases hleast

/-! ### The invocations of the executor -/

namespace ToolExecutor
variable {W : Type}

/-- The world after some invocations of the tool function. -/
def worldAfter (c : Call W) (w : W) : ℕ → W
  | 0 => w
  | n + 1 => (c.toolFn (worldAfter c w n)).2

/-- What `execute_with_retry` gets to see of an answer. -/
def outcomeOf : Answer → InvocationOutcome Value Raised
  | .ok output => .returned output
  | .error e => .raised e

/-- The `OverflowError` of a wait. -/
def overflowError : Raised := .error "OverflowError" "int too large to convert to float"

variable [Py]

/-- The call of `execute_with_retry` that a call of `execute` makes. -/
def retryCall (c : Call W) (w : W) (jitter : ℕ → ℤ → ℤ) : RetryCall Value Raised where
  policy := c.td.retryPolicy
  fn n := outcomeOf (c.toolFn (worldAfter c w (n - 1))).1
  semanticRetryCheck := some fun _ output => semanticRetryReason c.td c.toolName c.input output
  text := Raised.text
  jitter := jitter

variable (x : ToolExecutor W)

/-- Where a call goes when `execute_with_retry` has ended. -/
def afterRetries (c : Call W) (tid : String) : RetryEnd Value Raised → CallPc
  | .returned output retries => x.afterOutput ⟨c, tid, .calling⟩ output retries
  | .raised e => .failing e
  | .overflow => .failing overflowError
  | .afterLoop none => .failing nothingInvoked
  | .afterLoop (some e) => .failing e

variable {x} {c : Call W} {tid : String} {s : Shared W} {jitter : ℕ → ℤ → ℤ}

/-- An action of the executor is one attempt. -/
theorem afterInvoke_eq (x : ToolExecutor W) (c : Call W) (tid : String) (jitter : ℕ → ℤ → ℤ) (n : ℕ) (w : W) :
    x.afterInvoke ⟨c, tid, .invoking n⟩ n (c.toolFn (worldAfter c w (n - 1))).1 =
      if (retryCall c w jitter).retried n then .invoking (n + 1)
      else x.afterRetries c tid ((retryCall c w jitter).endAt n).ending := by
  have hfn : (retryCall c w jitter).fn n = outcomeOf (c.toolFn (worldAfter c w (n - 1))).1 := rfl
  have hcheck : (retryCall c w jitter).semanticRetryCheck =
    some fun _ output => semanticRetryReason c.td c.toolName c.input output := rfl
  generalize (c.toolFn (worldAfter c w (n - 1))).1 = answer at hfn ⊢
  rw [RetryCall.endAt]
  cases answer with
  | error e =>
      have hr : (retryCall c w jitter).retried n = shouldRetry n e.text c.td.retryPolicy := by
        rw [RetryCall.retried, hfn]
        rfl
      rw [hr, hfn, afterInvoke]
      cases shouldRetry n e.text c.td.retryPolicy <;> rfl
  | ok output =>
      rw [afterInvoke]
      cases hreason : semanticRetryReason c.td c.toolName c.input output with
      | error e =>
          have hr : (retryCall c w jitter).retried n = false := by
            simp only [RetryCall.retried, hfn, hcheck, outcomeOf, hreason]
          rw [hr, hfn]
          simp only [outcomeOf, hcheck, hreason]
          rfl
      | ok reason =>
          have hr : (retryCall c w jitter).retried n =
              !(reason.isNone || c.td.retryPolicy.maxRetries < n) := by
            cases reason with
            | none =>
                simp only [RetryCall.retried, hfn, hcheck, outcomeOf, hreason, Option.isNone_none,
                  Bool.true_or, Bool.not_true]
            | some why =>
                simp only [RetryCall.retried, hfn, hcheck, outcomeOf, hreason, Option.isNone_some,
                  Bool.false_or, ← not_lt, decide_not]
                rfl
          rw [hr, hfn]
          simp only [outcomeOf, hcheck, hreason]
          cases reason.isNone || decide (c.td.retryPolicy.maxRetries < n) <;> rfl

theorem runCall_succ (n : ℕ) (p : Proc W) (s : Shared W) :
    x.runCall (n + 1) p s = x.stepCall (x.runCall n p s).1 (x.runCall n p s).2 := by
  induction n generalizing p s with
  | zero => rfl
  | succ n ih => exact ih _ _

/-- Retried attempts are actions that invoke the tool function. -/
theorem runCall_invoking {n : ℕ}
    (hretried : ∀ k, 1 ≤ k → k ≤ n → (retryCall c s.world jitter).retried k = true) :
    x.runCall n ⟨c, tid, .invoking 1⟩ s =
      (⟨c, tid, .invoking (n + 1)⟩, ⟨s.log, worldAfter c s.world n⟩) := by
  induction n with
  | zero => rfl
  | succ n ih =>
      have hlast := afterInvoke_eq x c tid jitter (n + 1) s.world
      rw [if_pos (hretried (n + 1) (Nat.le_add_left 1 n) le_rfl)] at hlast
      rw [runCall_succ, ih fun k hle hlt => hretried k hle (by omega)]
      show (Proc.mk c tid (x.afterInvoke _ _ _), Shared.mk _ _) = _
      rw [← hlast]
      rfl

/-- **The invocations of a call are those of `execute_with_retry`** when its waits can be computed. -/
theorem runCall_afterCalled (hwait : ∀ n, canWait n c.td.retryPolicy (jitter n) = true) :
    x.runCall ((retryCall c s.world jitter).executeWithRetry).invocations
        ⟨c, tid, afterCalled ⟨c, tid, .calling⟩⟩ s =
      (⟨c, tid, x.afterRetries c tid ((retryCall c s.world jitter).executeWithRetry).ending⟩,
        ⟨s.log, worldAfter c s.world ((retryCall c s.world jitter).executeWithRetry).invocations⟩) := by
  by_cases hneg : c.td.retryPolicy.maxRetries < 0
  · have hrun : (retryCall c s.world jitter).executeWithRetry = ⟨0, .afterLoop none⟩ :=
      RetryCall.executeWithRetry_of_neg hneg
    rw [hrun, afterCalled, if_pos hneg]
    rfl
  · obtain ⟨n, hn, -, hrun⟩ := (retryCall c s.world jitter).exists_executeWithRetry (not_lt.mp hneg)
    rw [hrun, afterCalled_of_nonneg (not_lt.mp hneg)]
    have hr : (retryCall c s.world jitter).retried n = false := by
      have hcan : (retryCall c s.world jitter).goesOn n = (retryCall c s.world jitter).retried n := by
        exact RetryCall.goesOn_of_canWait (hwait n)
      rw [← hcan]
      exact hn.stops
    obtain ⟨m, rfl⟩ := Nat.exists_eq_add_of_le' hn.le
    have hbefore : ∀ k, 1 ≤ k → k ≤ m → (retryCall c s.world jitter).retried k = true :=
      fun k hle hlt => RetryCall.retried_of_goesOn (hn.before k hle (by omega))
    have hlast := afterInvoke_eq x c tid jitter (m + 1) s.world
    rw [hr, if_neg Bool.false_ne_true] at hlast
    show x.runCall (m + 1) _ s = _
    rw [runCall_succ, runCall_invoking hbefore]
    show (Proc.mk c tid (x.afterInvoke _ _ _), Shared.mk _ _) = _
    rw [← hlast]
    rfl

end ToolExecutor

end JAgent
