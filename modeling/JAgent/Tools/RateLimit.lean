import JAgent.Tools.Guardrails
import JAgent.Lib.Window
import JAgent.Lib.System
import Mathlib.Data.Rat.Lemmas
import Mathlib.Algebra.Order.Ring.Rat

/-! # Rate limits

`RateLimitGuardrail` keeps the times of the calls it let through in one dictionary of the class, under a key
made of the tool's name and, for the scope `run`, the `run_id` of its own configuration.  A check forgets
what is older than its window, refuses when the rest reaches `max_calls`, and else adds the time.

`GuardrailRunner.run` walks the guardrails of a tool up to the first that fails; what the others answer is
up to the environment (`Call`).  All checks of a call read one clock.

Two limits of one tool share a key, and the one with the shorter window forgets calls that the other still
has to count.  `admitted_within_limit`: as long as no check does that to a limit, every interval of its
window's length holds at most `max_calls` admitted calls.

The key has nothing of the run that makes the call: `scope_run_independent_iff` says that the limit of one
run depends on the calls of others unless it lets no call or every call through. -/

namespace JAgent

open Lib.Window

/-! ### The guardrail -/

/-- The configuration of a `rate_limit` guardrail. -/
structure RateLimit where
  maxCalls : ℤ := 10
  windowSeconds : ℤ := 60
  scope : String := "tool"
  runId : String := ""
deriving DecidableEq

/-- `_call_history`. -/
abbrev CallHistory := Lib.Dict String (List ℚ)

namespace RateLimit

/-- `_make_key`. -/
def makeKey (limit : RateLimit) (toolName : String) : String :=
  if limit.scope = "run" then "run:" ++ limit.runId ++ ":" ++ toolName else "tool:" ++ toolName

/-- The times a check at `now` still counts. -/
def counted (limit : RateLimit) (toolName : String) (now : ℚ) (history : CallHistory) : List ℚ :=
  recent (limit.windowSeconds : ℚ) now (history.getD (limit.makeKey toolName) [])

/-- The history without the older times; a list that got empty is deleted and created again. -/
def pruned (limit : RateLimit) (toolName : String) (now : ℚ) (history : CallHistory) : CallHistory :=
  let key := limit.makeKey toolName
  let counted := limit.counted toolName now history
  if counted.isEmpty then (history.pop key).set key [] else history.set key counted

/-- `RateLimitGuardrail.check`. -/
def check (limit : RateLimit) (toolName : String) (now : ℚ) (history : CallHistory) :
    GuardrailResult × CallHistory :=
  let counted := limit.counted toolName now history
  let pruned := limit.pruned toolName now history
  if limit.maxCalls ≤ counted.length then
    (⟨false, "rate_limit", "Rate limit exceeded: " ++ toString limit.maxCalls ++ " calls per " ++
      toString limit.windowSeconds ++ "s (scope=" ++ limit.scope ++ ")", false⟩, pruned)
  else (⟨true, "rate_limit", "", false⟩, pruned.set (limit.makeKey toolName) (counted ++ [now]))

variable {limit : RateLimit} {toolName : String} {now : ℚ} {history : CallHistory}

theorem check_passed :
    (limit.check toolName now history).1.passed = true ↔
      ((limit.counted toolName now history).length : ℤ) < limit.maxCalls := by
  unfold check
  dsimp only
  by_cases hfull : limit.maxCalls ≤ (limit.counted toolName now history).length
  · rw [if_pos hfull]
    exact ⟨fun h => absurd h Bool.false_ne_true, fun h => absurd h (not_lt_of_ge hfull)⟩
  · rw [if_neg hfull]
    exact ⟨fun _ => not_le.mp hfull, fun _ => rfl⟩

theorem getD_pruned (key : String) : (limit.pruned toolName now history).getD key [] =
    if limit.makeKey toolName = key then limit.counted toolName now history else history.getD key [] := by
  dsimp only [pruned]
  cases hcounted : limit.counted toolName now history with
  | nil =>
      rw [List.isEmpty_nil, if_pos rfl, Lib.Dict.getD_set]
      split_ifs with hkey
      · rfl
      · unfold Lib.Dict.getD
        rw [Lib.Dict.get?_pop, if_neg hkey]
  | cons t times => rw [List.isEmpty_cons, if_neg Bool.false_ne_true, Lib.Dict.getD_set]

/-- What a check leaves under a key. -/
theorem getD_check (key : String) : (limit.check toolName now history).2.getD key [] =
    if limit.makeKey toolName = key then
      limit.counted toolName now history ++
        if (limit.check toolName now history).1.passed then [now] else []
    else history.getD key [] := by
  unfold check
  dsimp only
  by_cases hfull : limit.maxCalls ≤ (limit.counted toolName now history).length
  · rw [if_pos hfull, getD_pruned, if_neg Bool.false_ne_true, List.append_nil]
  · rw [if_neg hfull, Lib.Dict.getD_set, getD_pruned, if_pos rfl]
    split_ifs <;> rfl

end RateLimit

/-! ### The walk over the guardrails of a tool -/

/-- A guardrail that a tool attaches. -/
inductive Attached where
  | rateLimit (limit : RateLimit)
  | other (guardrail : Guardrail)
deriving DecidableEq

/-- A tool, as far as the walk reads it. -/
structure LimitedTool where
  name : String
  guardrails : List Attached
deriving DecidableEq

/-- A call of a tool, with what the environment decides. -/
structure LimitedCall where
  tool : LimitedTool
  /-- The run that makes the call. -/
  runId : String
  now : ℚ
  /-- The results of the schema, the whitelist and the prerequisites. -/
  before : List GuardrailResult
  /-- What the other guardrails answer. -/
  answer : Guardrail → GuardrailResult

namespace LimitedCall
variable (call : LimitedCall)

/-- The check of a limit at the time of the call. -/
def checked (limit : RateLimit) (history : CallHistory) : GuardrailResult × CallHistory :=
  limit.check call.tool.name call.now history

/-- The attached guardrails, up to the first that fails; `done` are the results so far. -/
def runAttached : List Attached → List GuardrailResult → CallHistory → List GuardrailResult × CallHistory
  | [], done, history => (done, history)
  | .rateLimit limit :: rest, done, history =>
    let result := call.checked limit history
    if result.1.passed then runAttached rest (done ++ [result.1]) result.2 else (done ++ [result.1], result.2)
  | .other guardrail :: rest, done, history =>
    let result := call.answer guardrail
    if result.passed then runAttached rest (done ++ [result]) history else (done ++ [result], history)

/-- `GuardrailRunner.run`. -/
def run (history : CallHistory) : List GuardrailResult × CallHistory :=
  if call.before.all GuardrailResult.passed then call.runAttached call.tool.guardrails call.before history
  else (call.before, history)

/-- Every result passed. -/
def admitted (history : CallHistory) : Bool := (call.run history).1.all GuardrailResult.passed

/-- The checks of limits that the walk makes, each with the history it finds. -/
def checks : List Attached → CallHistory → List (RateLimit × CallHistory)
  | [], _ => []
  | .rateLimit limit :: rest, history =>
    (limit, history) ::
      if (call.checked limit history).1.passed then checks rest (call.checked limit history).2 else []
  | .other guardrail :: rest, history => if (call.answer guardrail).passed then checks rest history else []

/-- The checks of limits that the call makes. -/
def checksMade (history : CallHistory) : List (RateLimit × CallHistory) :=
  if call.before.all GuardrailResult.passed then call.checks call.tool.guardrails history else []

/-- A check forgets no time under `key` that is younger than `window`. -/
def forgetsNone (key : String) (window : ℤ) (check : RateLimit × CallHistory) : Bool :=
  check.1.makeKey call.tool.name ≠ key ||
    (check.2.getD key []).all fun t =>
      decide ((window : ℚ) ≤ call.now - t) || decide (call.now - t < (check.1.windowSeconds : ℚ))

/-- No check of the call does. -/
def spares (key : String) (window : ℤ) (history : CallHistory) : Bool :=
  (call.checksMade history).all (call.forgetsNone key window)

/-! ### What a walk keeps -/

section walk
variable {call} {key : String} {window : ℤ} {kept : List ℚ} {history : CallHistory} {limit : RateLimit}

theorem kept_by_check (hkept : ∀ t ∈ kept, call.now - t < (window : ℚ))
    (h : kept.Sublist (history.getD key [])) (hspare : call.forgetsNone key window (limit, history) = true) :
    kept.Sublist ((call.checked limit history).2.getD key []) := by
  unfold checked
  rw [RateLimit.getD_check]
  by_cases hkey : limit.makeKey call.tool.name = key
  · unfold forgetsNone at hspare
    rw [Bool.or_eq_true, decide_eq_true_iff, List.all_eq_true] at hspare
    have hyoung : ∀ t ∈ kept, call.now - t < (limit.windowSeconds : ℚ) := by
      intro t ht
      rcases hspare with hne | hall
      · exact absurd hkey hne
      have ht' := hall t (h.subset ht)
      rw [Bool.or_eq_true, decide_eq_true_iff, decide_eq_true_iff] at ht'
      exact ht'.resolve_left (not_le_of_gt (hkept t ht))
    have hcounted : kept.Sublist (limit.counted call.tool.name call.now history) := by
      unfold RateLimit.counted
      rw [hkey]
      exact sublist_recent h hyoung
    rw [if_pos hkey]
    exact hcounted.trans (List.sublist_append_left _ _)
  · rw [if_neg hkey]
    exact h

/-- A walk keeps the times inside the window. -/
theorem kept_by_walk (hkept : ∀ t ∈ kept, call.now - t < (window : ℚ)) (items : List Attached)
    (done : List GuardrailResult) (h : kept.Sublist (history.getD key []))
    (hspare : ∀ check ∈ call.checks items history, call.forgetsNone key window check = true) :
    kept.Sublist ((call.runAttached items done history).2.getD key []) := by
  induction items generalizing done history with
  | nil => exact h
  | cons item items ih =>
      cases item with
      | rateLimit limit =>
          have hcheck := kept_by_check hkept h (hspare (limit, history) List.mem_cons_self)
          rw [runAttached]
          split_ifs with hpass
          · refine ih _ hcheck fun check hmem => hspare check ?_
            rw [checks, if_pos hpass]
            exact List.mem_cons_of_mem _ hmem
          · exact hcheck
      | other guardrail =>
          rw [runAttached]
          split_ifs with hpass
          · refine ih _ h fun check hmem => hspare check ?_
            rw [checks, if_pos hpass]
            exact hmem
          · exact h

/-- The limit itself counts the call, and had room for it. -/
theorem counted_by_check (hkey : limit.makeKey call.tool.name = key)
    (hkept : ∀ t ∈ kept, call.now - t < (limit.windowSeconds : ℚ)) (h : kept.Sublist (history.getD key []))
    (hpass : (call.checked limit history).1.passed = true) :
    (kept.length : ℤ) < limit.maxCalls ∧
      (kept ++ [call.now]).Sublist ((call.checked limit history).2.getD key []) := by
  have hcounted : kept.Sublist (limit.counted call.tool.name call.now history) := by
    unfold RateLimit.counted
    rw [hkey]
    exact sublist_recent h hkept
  have hroom := RateLimit.check_passed.mp hpass
  have hle := hcounted.length_le
  refine ⟨by omega, ?_⟩
  unfold checked at hpass ⊢
  rw [RateLimit.getD_check, if_pos hkey, if_pos hpass]
  exact hcounted.append (List.Sublist.refl _)

theorem not_all_of_failed {result : GuardrailResult} (hfail : ¬result.passed = true)
    (done : List GuardrailResult) : ¬(done ++ [result]).all GuardrailResult.passed = true := by
  intro hall
  rw [List.all_append, Bool.and_eq_true, List.all_cons, Bool.and_eq_true] at hall
  exact hfail hall.2.1

/-- A walk that passes a limit counts the call there, and the limit had room for it. -/
theorem counted_by_walk (hkey : limit.makeKey call.tool.name = key) (hpos : 0 < limit.windowSeconds)
    (hkept : ∀ t ∈ kept, call.now - t < (limit.windowSeconds : ℚ)) {items : List Attached}
    (hmem : Attached.rateLimit limit ∈ items) (done : List GuardrailResult)
    (h : kept.Sublist (history.getD key []))
    (hspare : ∀ check ∈ call.checks items history, call.forgetsNone key limit.windowSeconds check = true)
    (hall : (call.runAttached items done history).1.all GuardrailResult.passed = true) :
    (kept.length : ℤ) < limit.maxCalls ∧
      (kept ++ [call.now]).Sublist ((call.runAttached items done history).2.getD key []) := by
  have hkept' : ∀ t ∈ kept ++ [call.now], call.now - t < (limit.windowSeconds : ℚ) := by
    intro t ht
    rcases List.mem_append.mp ht with ht | ht
    · exact hkept t ht
    · rw [List.mem_singleton.mp ht, sub_self]
      exact_mod_cast hpos
  induction items generalizing done history with
  | nil => exact absurd hmem List.not_mem_nil
  | cons item items ih =>
      cases item with
      | rateLimit other =>
          rw [runAttached] at hall ⊢
          split_ifs at hall ⊢ with hpass
          · have hrest : ∀ check ∈ call.checks items (call.checked other history).2,
                call.forgetsNone key limit.windowSeconds check = true := by
              intro check hcheck
              apply hspare check
              rw [checks, if_pos hpass]
              exact List.mem_cons_of_mem _ hcheck
            rcases List.mem_cons.mp hmem with heq | htail
            · obtain rfl := Attached.rateLimit.inj heq
              obtain ⟨hroom, hcount⟩ := counted_by_check hkey hkept h hpass
              exact ⟨hroom, kept_by_walk hkept' items _ hcount hrest⟩
            · exact ih htail _ (kept_by_check hkept h (hspare _ List.mem_cons_self)) hrest hall
          · exact absurd hall (not_all_of_failed hpass done)
      | other guardrail =>
          rw [runAttached] at hall ⊢
          split_ifs at hall ⊢ with hpass
          · refine ih ((List.mem_cons.mp hmem).resolve_left (fun h => by cases h)) _ h ?_ hall
            intro check hcheck
            apply hspare check
            rw [checks, if_pos hpass]
            exact hcheck
          · exact absurd hall (not_all_of_failed hpass done)

/-- The checks of a walk are of its limits. -/
theorem mem_of_mem_checks {items : List Attached} {check : RateLimit × CallHistory}
    (h : check ∈ call.checks items history) : Attached.rateLimit check.1 ∈ items := by
  induction items generalizing history with
  | nil => exact absurd h List.not_mem_nil
  | cons item items ih =>
      cases item with
      | rateLimit limit =>
          rw [checks] at h
          rcases List.mem_cons.mp h with rfl | hrest
          · exact List.mem_cons_self
          split_ifs at hrest
          · exact List.mem_cons_of_mem _ (ih hrest)
          · exact absurd hrest List.not_mem_nil
      | other guardrail =>
          rw [checks] at h
          split_ifs at h
          · exact List.mem_cons_of_mem _ (ih h)
          · exact absurd h List.not_mem_nil

/-- A tool none of whose limits has the key and a shorter window forgets nothing inside the window. -/
theorem spares_of_windows (h : ∀ limit, Attached.rateLimit limit ∈ call.tool.guardrails →
    limit.makeKey call.tool.name = key → window ≤ limit.windowSeconds) (history : CallHistory) :
    call.spares key window history = true := by
  unfold spares checksMade
  rw [List.all_eq_true]
  intro check hcheck
  split_ifs at hcheck
  · unfold forgetsNone
    rw [Bool.or_eq_true, decide_eq_true_iff, List.all_eq_true]
    by_cases hkey : check.1.makeKey call.tool.name = key
    · refine .inr fun t _ => ?_
      have hwindow : (window : ℚ) ≤ (check.1.windowSeconds : ℚ) := by
        exact_mod_cast h check.1 (mem_of_mem_checks hcheck) hkey
      rw [Bool.or_eq_true, decide_eq_true_iff, decide_eq_true_iff]
      exact (le_or_gt _ _).imp_right fun hlt => lt_of_lt_of_le hlt hwindow
    · exact .inl hkey
  · exact absurd hcheck List.not_mem_nil

end walk

end LimitedCall

/-! ### Runs -/

/-- The history, and every call so far with its decision. -/
structure LimiterState where
  history : CallHistory := Lib.Dict.empty
  log : List (LimitedCall × Bool) := []

/-- After a call. -/
def LimiterState.next (s : LimiterState) (call : LimitedCall) : LimiterState :=
  ⟨(call.run s.history).2, s.log ++ [(call, call.admitted s.history)]⟩

/-- A call is made, not before the last one. -/
def limiterStep (s : LimiterState) (call : LimitedCall) : Option LimiterState :=
  if s.log.all fun entry => entry.1.now ≤ call.now then some (s.next call) else none

theorem limiterStep_of_le {s : LimiterState} {call : LimitedCall}
    (h : ∀ entry ∈ s.log, entry.1.now ≤ call.now) : limiterStep s call = some (s.next call) := by
  unfold limiterStep
  rw [if_pos]
  exact List.all_eq_true.mpr fun entry hentry => decide_eq_true (h entry hentry)

theorem limiterStep_eq {s t : LimiterState} {call : LimitedCall} (h : limiterStep s call = some t) :
    (∀ entry ∈ s.log, entry.1.now ≤ call.now) ∧ t = s.next call := by
  unfold limiterStep at h
  split_ifs at h with hall
  rw [List.all_eq_true] at hall
  exact ⟨fun entry hentry => of_decide_eq_true (hall entry hentry), (Option.some.inj h).symm⟩

namespace LimiterState

/-- The entry is an admitted call of the tool. -/
def isAdmitted (tool : LimitedTool) (entry : LimitedCall × Bool) : Bool := entry.2 && entry.1.tool = tool

/-- When calls of the tool were admitted. -/
def admittedTimes (s : LimiterState) (tool : LimitedTool) : List ℚ :=
  (s.log.filter (isAdmitted tool)).map fun entry => entry.1.now

/-- What holds for a limit of a tool: its history has the admitted calls inside the window, and no narrow
set of times has more of them than the limit allows. -/
structure Counts (tool : LimitedTool) (limit : RateLimit) (s : LimiterState) : Prop where
  known : ∀ now : ℚ, (∀ entry ∈ s.log, entry.1.now ≤ now) →
    (recent (limit.windowSeconds : ℚ) now (s.admittedTimes tool)).Sublist
      (s.history.getD (limit.makeKey tool.name) [])
  bounded : ∀ p, Narrow (limit.windowSeconds : ℚ) p →
    ((s.admittedTimes tool).filter p).length ≤ limit.maxCalls.toNat

/-- One more call. -/
theorem admittedTimes_next (s : LimiterState) (call : LimitedCall) (tool : LimitedTool) :
    (s.next call).admittedTimes tool =
      s.admittedTimes tool ++ if isAdmitted tool (call, call.admitted s.history) then [call.now] else [] := by
  unfold admittedTimes next
  rw [List.filter_append, List.map_append, List.filter_singleton]
  cases isAdmitted tool (call, call.admitted s.history) <;> rfl

variable {tool : LimitedTool} {limit : RateLimit} {s : LimiterState} {call : LimitedCall}

/-- What a spared call leaves under the key of a limit, whatever is decided. -/
theorem Counts.kept (h : Counts tool limit s) (hnow : ∀ entry ∈ s.log, entry.1.now ≤ call.now)
    (hspare : call.spares (limit.makeKey tool.name) limit.windowSeconds s.history = true) :
    (recent (limit.windowSeconds : ℚ) call.now (s.admittedTimes tool)).Sublist
      ((call.run s.history).2.getD (limit.makeKey tool.name) []) := by
  have hknown := h.known call.now hnow
  unfold LimitedCall.spares LimitedCall.checksMade at hspare
  unfold LimitedCall.run
  split_ifs at hspare ⊢ with hbefore
  · exact LimitedCall.kept_by_walk (fun t ht => (mem_recent.mp ht).2) _ _ hknown (List.all_eq_true.mp hspare)
  · exact hknown

/-- What an admitted call of the tool leaves there. -/
theorem Counts.counted (h : Counts tool limit s) (hnow : ∀ entry ∈ s.log, entry.1.now ≤ call.now)
    (hspare : call.spares (limit.makeKey tool.name) limit.windowSeconds s.history = true)
    (hmem : Attached.rateLimit limit ∈ tool.guardrails) (hpos : 0 < limit.windowSeconds)
    (htool : call.tool = tool) (hadmitted : call.admitted s.history = true) :
    ((recent (limit.windowSeconds : ℚ) call.now (s.admittedTimes tool)).length : ℤ) < limit.maxCalls ∧
      (recent (limit.windowSeconds : ℚ) call.now (s.admittedTimes tool) ++ [call.now]).Sublist
        ((call.run s.history).2.getD (limit.makeKey tool.name) []) := by
  have hknown := h.known call.now hnow
  unfold LimitedCall.spares LimitedCall.checksMade at hspare
  unfold LimitedCall.admitted LimitedCall.run at hadmitted
  unfold LimitedCall.run
  subst htool
  split_ifs at hspare hadmitted ⊢ with hbefore
  · exact LimitedCall.counted_by_walk rfl hpos (fun t ht => (mem_recent.mp ht).2) hmem _ hknown
      (List.all_eq_true.mp hspare) hadmitted
  · exact absurd hadmitted hbefore

/-- **One call** that forgets nothing inside the window keeps the count. -/
theorem Counts.step {t : LimiterState} (h : Counts tool limit s)
    (hmem : Attached.rateLimit limit ∈ tool.guardrails) (hpos : 0 < limit.windowSeconds)
    (hspare : call.spares (limit.makeKey tool.name) limit.windowSeconds s.history = true)
    (hstep : limiterStep s call = some t) : Counts tool limit t := by
  obtain ⟨hnow, rfl⟩ := limiterStep_eq hstep
  have hlater : ∀ now : ℚ, (∀ entry ∈ (s.next call).log, entry.1.now ≤ now) →
      call.now ≤ now := fun now hall => hall (call, _) (List.mem_append_right _ List.mem_cons_self)
  cases hcase : isAdmitted tool (call, call.admitted s.history) with
  | false =>
      refine ⟨fun now hall => ?_, fun p hp => ?_⟩
      · rw [admittedTimes_next, hcase, if_neg Bool.false_ne_true, List.append_nil]
        exact (recent_sublist_of_le (hlater now hall) _).trans (h.kept hnow hspare)
      · rw [admittedTimes_next, hcase, if_neg Bool.false_ne_true, List.append_nil]
        exact h.bounded p hp
  | true =>
      have hboth := hcase
      unfold isAdmitted at hboth
      rw [Bool.and_eq_true, decide_eq_true_iff] at hboth
      obtain ⟨hroom, hcount⟩ := h.counted hnow hspare hmem hpos hboth.2 hboth.1
      have hlt : (recent (limit.windowSeconds : ℚ) call.now (s.admittedTimes tool)).length <
          limit.maxCalls.toNat := by omega
      refine ⟨fun now hall => ?_, fun p hp => ?_⟩
      · rw [admittedTimes_next, hcase, if_pos rfl]
        refine (recent_sublist_of_le (hlater now hall) _).trans (List.Sublist.trans ?_ hcount)
        unfold recent
        rw [List.filter_append]
        exact (List.Sublist.refl _).append (List.filter_sublist)
      · rw [admittedTimes_next, hcase, if_pos rfl]
        exact hp.length_filter_append hlt (h.bounded p hp)

end LimiterState

/-- Runs in which no call makes the limit forget what is inside its window. -/
theorem admitted_narrow {tool : LimitedTool} {limit : RateLimit}
    (hmem : Attached.rateLimit limit ∈ tool.guardrails) {s : LimiterState}
    (h : Lib.ReachesVia limiterStep (fun s call =>
      call.spares (limit.makeKey tool.name) limit.windowSeconds s.history = true) {} s)
    {p : ℚ → Bool} (hp : Narrow (limit.windowSeconds : ℚ) p) :
    ((s.admittedTimes tool).filter p).length ≤ limit.maxCalls.toNat := by
  by_cases hpos : 0 < limit.windowSeconds
  · have hcounts : LimiterState.Counts tool limit s := by
      refine h.invariant ⟨fun _ _ => List.nil_sublist _, fun _ _ => Nat.zero_le _⟩ ?_
      intro s t call _ hspare hcounts hstep
      exact hcounts.step hmem hpos hspare hstep
    exact hcounts.bounded p hp
  · have hzero : (limit.windowSeconds : ℚ) ≤ 0 := by exact_mod_cast not_lt.mp hpos
    rw [hp.filter_eq_nil hzero]
    exact Nat.zero_le _

/-- **Rate limits over whole runs**: when no call of a run makes a limit of a tool forget what is inside its
window, at most `max_calls` calls of the tool are admitted in any half-open interval of that length. -/
theorem admitted_within_limit {tool : LimitedTool} {limit : RateLimit}
    (hmem : Attached.rateLimit limit ∈ tool.guardrails) {s : LimiterState}
    (h : Lib.ReachesVia limiterStep (fun s call =>
      call.spares (limit.makeKey tool.name) limit.windowSeconds s.history = true) {} s) (a : ℚ) :
    ((s.admittedTimes tool).filter (fromUntil a (limit.windowSeconds : ℚ))).length ≤ limit.maxCalls.toNat ∧
      ((s.admittedTimes tool).filter (afterUpTo a (limit.windowSeconds : ℚ))).length ≤
        limit.maxCalls.toNat :=
  ⟨admitted_narrow hmem h (narrow_fromUntil a _), admitted_narrow hmem h (narrow_afterUpTo a _)⟩

/-- So it is when the tools that are called have no limit with the same key and a shorter window. -/
theorem admitted_of_windows {tool : LimitedTool} {limit : RateLimit}
    (hmem : Attached.rateLimit limit ∈ tool.guardrails) {s : LimiterState}
    (h : Lib.ReachesVia limiterStep (fun _ call => ∀ other, Attached.rateLimit other ∈ call.tool.guardrails →
      other.makeKey call.tool.name = limit.makeKey tool.name → limit.windowSeconds ≤ other.windowSeconds) {} s)
    {p : ℚ → Bool} (hp : Narrow (limit.windowSeconds : ℚ) p) :
    ((s.admittedTimes tool).filter p).length ≤ limit.maxCalls.toNat :=
  admitted_narrow hmem (h.mono fun s _ hcall => LimitedCall.spares_of_windows hcall s.history) hp

/-- A call of a tool that passes everything but its limits. -/
def LimitedCall.plain (tool : LimitedTool) (runId : String) (now : ℚ) : LimitedCall :=
  ⟨tool, runId, now, [], fun guardrail => ⟨true, guardrail.guardrailType, "", false⟩⟩

/-- A tool with two limits, the shorter window first. -/
def twoLimits : LimitedTool :=
  ⟨"search", [.rateLimit { maxCalls := 100, windowSeconds := 1 }, .rateLimit { maxCalls := 2 }]⟩

/-- Calls of a tool at some times. -/
def callsAt (tool : LimitedTool) (runId : String) (times : List ℚ) : List LimitedCall :=
  times.map (LimitedCall.plain tool runId)

/-- Within a second nothing is forgotten: of three calls the limit admits one, which it counts twice. -/
theorem burst_within_limit : ∃ s : LimiterState,
    ((s.admittedTimes twoLimits).filter (fromUntil 0 60)).length ≤ 2 ∧
      (s.admittedTimes twoLimits == [0]) = true ∧ s.log.length = 3 := by
  obtain ⟨s, hreach, hs⟩ := Lib.exists_reachesVia_of_run limiterStep
    (fun s call => call.spares "tool:search" 60 s.history) (callsAt twoLimits "r" [0, 1/4, 1/2]) {}
    (fun s => (s.admittedTimes twoLimits == [0]) && decide (s.log.length = 3)) (by decide +kernel)
  rw [Bool.and_eq_true, decide_eq_true_iff] at hs
  have hmem : Attached.rateLimit { maxCalls := 2 } ∈ twoLimits.guardrails := by decide
  exact ⟨s, (admitted_within_limit hmem hreach 0).1, hs⟩

/-- **The limit of the longer window is exceeded**: two calls a minute are declared and three are admitted
within five seconds. -/
theorem shorter_window_forgets : ∃ s, Lib.Reaches limiterStep {} s ∧
    Attached.rateLimit { maxCalls := 2 } ∈ twoLimits.guardrails ∧
    2 < ((s.admittedTimes twoLimits).filter (fromUntil 0 60)).length := by
  obtain ⟨s, hreach, hs⟩ := Lib.exists_reaches_of_run limiterStep (callsAt twoLimits "r" [0, 2, 4]) {}
    (fun s => decide (2 < ((s.admittedTimes twoLimits).filter (fromUntil 0 60)).length)) (by decide +kernel)
  exact ⟨s, hreach, by decide, of_decide_eq_true hs⟩

/-! ### Limits of runs -/

/-- The run of the call. -/
def LimitedCall.madeBy (runId : String) (call : LimitedCall) : Bool := call.runId = runId

/-- The decisions about the calls of a run. -/
def LimiterState.decisions (s : LimiterState) (runId : String) : List Bool :=
  (s.log.filter fun entry => entry.1.madeBy runId).map Prod.snd

/-- The one rate limit of a tool, and it has the scope `run`. -/
structure RunScoped (tool : LimitedTool) (limit : RateLimit) : Prop where
  only : ∃ front back, tool.guardrails = front ++ .rateLimit limit :: back ∧
    (∀ other, Attached.rateLimit other ∉ front) ∧ ∀ other, Attached.rateLimit other ∉ back
  scope_run : limit.scope = "run"

/-- Two sequences of calls of the tool that differ only in the calls of other runs have the same decisions
about the calls of a run. -/
def Independent (tool : LimitedTool) : Prop :=
  ∀ (runId : String) (calls calls' : List LimitedCall) (s s' : LimiterState),
    (∀ call ∈ calls, call.tool = tool) → (∀ call ∈ calls', call.tool = tool) →
    calls.filter (LimitedCall.madeBy runId) = calls'.filter (LimitedCall.madeBy runId) →
    Lib.run limiterStep calls {} = some s → Lib.run limiterStep calls' {} = some s' →
    s.decisions runId = s'.decisions runId

/-- The limit refuses every call, or counts none. -/
def RateLimit.Idle (limit : RateLimit) : Prop := limit.maxCalls ≤ 0 ∨ limit.windowSeconds ≤ 0

/-- Every time of the history is at `now` or before. -/
def Past (now : ℚ) (history : CallHistory) : Prop := ∀ key, ∀ t ∈ history.getD key [], t ≤ now

namespace LimitedCall
variable {call : LimitedCall} {history : CallHistory}

theorem past_check (h : Past call.now history) (limit : RateLimit) :
    Past call.now (call.checked limit history).2 := by
  intro key t ht
  unfold checked at ht
  rw [RateLimit.getD_check] at ht
  split_ifs at ht with hkey hpass
  · rcases List.mem_append.mp ht with ht | ht
    · exact h _ t (mem_recent.mp ht).1
    · exact le_of_eq (List.mem_singleton.mp ht)
  · rw [List.append_nil] at ht
    exact h _ t (mem_recent.mp ht).1
  · exact h key t ht

/-- What an idle limit answers does not depend on the history. -/
theorem checked_of_idle {limit : RateLimit} (hidle : limit.Idle) (h : Past call.now history) :
    (call.checked limit history).1 = (call.checked limit Lib.Dict.empty).1 := by
  unfold checked RateLimit.check
  dsimp only
  rcases hidle with hzero | hzero
  · rw [if_pos (by omega), if_pos (by omega)]
  · have hnone : ∀ {history : CallHistory}, Past call.now history →
        limit.counted call.tool.name call.now history = [] := by
      intro history hpast
      unfold RateLimit.counted recent
      rw [List.filter_eq_nil_iff]
      intro t ht hlt
      have hwindow : (limit.windowSeconds : ℚ) ≤ 0 := by exact_mod_cast hzero
      have hle : 0 ≤ call.now - t := sub_nonneg.mpr (hpast _ t ht)
      exact absurd (of_decide_eq_true hlt) (not_lt_of_ge (le_trans hwindow hle))
    have hempty : Past call.now Lib.Dict.empty := fun key t ht => absurd ht List.not_mem_nil
    rw [hnone h, hnone hempty]
    split_ifs <;> rfl

theorem runAttached_of_idle {items : List Attached}
    (hidle : ∀ limit, Attached.rateLimit limit ∈ items → limit.Idle) (done : List GuardrailResult)
    {history' : CallHistory} (h : Past call.now history) (h' : Past call.now history') :
    (call.runAttached items done history).1 = (call.runAttached items done history').1 ∧
      Past call.now (call.runAttached items done history).2 := by
  induction items generalizing done history history' with
  | nil => exact ⟨rfl, h⟩
  | cons item items ih =>
      have hrest := fun limit hmem => hidle limit (List.mem_cons_of_mem _ hmem)
      cases item with
      | rateLimit limit =>
          have hlimit := hidle limit List.mem_cons_self
          have hsame : (call.checked limit history).1 = (call.checked limit history').1 :=
            (checked_of_idle hlimit h).trans (checked_of_idle hlimit h').symm
          rw [runAttached, runAttached, hsame]
          split_ifs
          · exact ih hrest _ (past_check h limit) (past_check h' limit)
          · exact ⟨rfl, past_check h limit⟩
      | other guardrail =>
          rw [runAttached, runAttached]
          split_ifs
          · exact ih hrest _ h h'
          · exact ⟨rfl, h⟩

/-- The decision about a call under idle limits is that of a fresh history. -/
theorem run_of_idle (hidle : ∀ limit, Attached.rateLimit limit ∈ call.tool.guardrails → limit.Idle)
    (h : Past call.now history) : call.admitted history = call.admitted Lib.Dict.empty ∧
      Past call.now (call.run history).2 := by
  have hempty : Past call.now Lib.Dict.empty := fun key t ht => absurd ht List.not_mem_nil
  obtain ⟨hsame, hpast⟩ := runAttached_of_idle hidle call.before h hempty
  unfold admitted run
  split_ifs with hbefore
  · exact ⟨by rw [hsame], hpast⟩
  · exact ⟨rfl, h⟩

end LimitedCall

/-- A run of calls under idle limits decides about each as if it were the first. -/
theorem log_of_idle {calls : List LimitedCall} {s t : LimiterState}
    (hidle : ∀ call ∈ calls, ∀ limit, Attached.rateLimit limit ∈ call.tool.guardrails → limit.Idle)
    (hpast : ∀ now, (∀ entry ∈ s.log, entry.1.now ≤ now) → Past now s.history)
    (h : Lib.run limiterStep calls s = some t) :
    t.log = s.log ++ calls.map fun call => (call, call.admitted Lib.Dict.empty) := by
  induction calls generalizing s with
  | nil =>
      obtain rfl := Option.some.inj h
      exact (List.append_nil _).symm
  | cons call calls ih =>
      obtain ⟨u, hstep, hrun⟩ := Option.bind_eq_some_iff.mp h
      obtain ⟨hnow, rfl⟩ := limiterStep_eq hstep
      obtain ⟨hsame, hafter⟩ := LimitedCall.run_of_idle (hidle call List.mem_cons_self) (hpast _ hnow)
      have hlog := ih (fun c hc => hidle c (List.mem_cons_of_mem _ hc)) ?_ hrun
      · rw [hlog]
        unfold LimiterState.next
        rw [hsame, List.map_cons, List.append_assoc]
        rfl
      · intro now hall key t ht
        exact le_trans (hafter key t ht) (hall (call, _) (List.mem_append_right _ List.mem_cons_self))

/-- Idle limits keep runs apart. -/
theorem independent_of_idle {tool : LimitedTool}
    (hidle : ∀ limit, Attached.rateLimit limit ∈ tool.guardrails → limit.Idle) : Independent tool := by
  have hdecisions : ∀ {calls : List LimitedCall} {s : LimiterState}, (∀ call ∈ calls, call.tool = tool) →
      Lib.run limiterStep calls {} = some s → ∀ runId, s.decisions runId =
        (calls.filter (LimitedCall.madeBy runId)).map fun call => call.admitted Lib.Dict.empty := by
    intro calls s htool hrun runId
    have hlog := log_of_idle (fun call hcall => by rw [htool call hcall]; exact hidle)
      (fun _ _ _ _ ht => absurd ht List.not_mem_nil) hrun
    unfold LimiterState.decisions
    rw [hlog, List.nil_append, List.filter_map, List.map_map]
    rfl
  intro runId calls calls' s s' htool htool' hfilter hrun hrun'
  rw [hdecisions htool hrun, hdecisions htool' hrun', hfilter]

section interference
variable {tool : LimitedTool} {limit : RateLimit}

/-- Other guardrails that pass are walked over. -/
theorem runAttached_front {call : LimitedCall} (hpass : ∀ guardrail, (call.answer guardrail).passed = true)
    {front : List Attached} (hfront : ∀ other, Attached.rateLimit other ∉ front) (rest : List Attached)
    {done : List GuardrailResult} (hdone : done.all GuardrailResult.passed = true) (history : CallHistory) :
    ∃ done', done'.all GuardrailResult.passed = true ∧
      call.runAttached (front ++ rest) done history = call.runAttached rest done' history := by
  induction front generalizing done with
  | nil => exact ⟨done, hdone, rfl⟩
  | cons item front ih =>
      cases item with
      | rateLimit other => exact absurd List.mem_cons_self (hfront other)
      | other guardrail =>
          have hnext : (done ++ [call.answer guardrail]).all GuardrailResult.passed = true := by
            rw [List.all_append, hdone, List.all_cons, hpass]
            rfl
          obtain ⟨done', hdone', heq⟩ := ih (fun other h => hfront other (List.mem_cons_of_mem _ h)) hnext
          refine ⟨done', hdone', ?_⟩
          rw [List.cons_append, LimitedCall.runAttached, if_pos (hpass guardrail)]
          exact heq

/-- A plain call is decided by the one limit alone. -/
theorem run_plain (h : RunScoped tool limit) (runId : String) (now : ℚ) (history : CallHistory) :
    (LimitedCall.plain tool runId now).admitted history = (limit.check tool.name now history).1.passed ∧
      ((LimitedCall.plain tool runId now).run history).2 = (limit.check tool.name now history).2 := by
  obtain ⟨front, back, hguardrails, hfront, hback⟩ := h.only
  have hchecked : (LimitedCall.plain tool runId now).checked limit history =
      limit.check tool.name now history := rfl
  have hrun : (LimitedCall.plain tool runId now).run history =
      (LimitedCall.plain tool runId now).runAttached (front ++ .rateLimit limit :: back) [] history := by
    unfold LimitedCall.run
    rw [← hguardrails]
    rfl
  have hpass : ∀ guardrail, ((LimitedCall.plain tool runId now).answer guardrail).passed = true := fun _ => rfl
  have hnil : ([] : List GuardrailResult).all GuardrailResult.passed = true := rfl
  obtain ⟨done, hdone, heq⟩ := runAttached_front hpass hfront (.rateLimit limit :: back) hnil history
  unfold LimitedCall.admitted
  rw [hrun, heq, LimitedCall.runAttached, hchecked]
  cases hlimit : (limit.check tool.name now history).1.passed with
  | true =>
      have hnext : (done ++ [(limit.check tool.name now history).1]).all GuardrailResult.passed = true := by
        rw [List.all_append, hdone, List.all_cons, hlimit]
        rfl
      obtain ⟨done', hdone', heq'⟩ :=
        runAttached_front hpass hback [] hnext (limit.check tool.name now history).2
      rw [List.append_nil] at heq'
      rw [if_pos rfl, heq']
      exact ⟨hdone', rfl⟩
  | false =>
      rw [if_neg Bool.false_ne_true]
      refine ⟨?_, rfl⟩
      rw [List.all_append, List.all_cons, hlimit, Bool.false_and, Bool.and_false]

/-- The check of a limit that has counted `n` calls of this moment. -/
theorem check_replicate (hwindow : 0 < limit.windowSeconds) {history : CallHistory} {n : ℕ} {now : ℚ}
    (h : history.getD (limit.makeKey tool.name) [] = List.replicate n now) :
    ((limit.check tool.name now history).1.passed = true ↔ (n : ℤ) < limit.maxCalls) ∧
      ((n : ℤ) < limit.maxCalls → (limit.check tool.name now history).2.getD (limit.makeKey tool.name) [] =
        List.replicate (n + 1) now) := by
  have hcounted : limit.counted tool.name now history = List.replicate n now := by
    unfold RateLimit.counted recent
    rw [h, List.filter_eq_self]
    intro t ht
    rw [List.eq_of_mem_replicate ht, sub_self]
    exact decide_eq_true (by exact_mod_cast hwindow)
  have hpassed : (limit.check tool.name now history).1.passed = true ↔ (n : ℤ) < limit.maxCalls := by
    rw [RateLimit.check_passed, hcounted, List.length_replicate]
  refine ⟨hpassed, fun hroom => ?_⟩
  rw [RateLimit.getD_check, if_pos rfl, hcounted, if_pos (hpassed.mpr hroom), List.replicate_succ']

/-- Calls of one moment fill the limit up. -/
theorem run_replicate (h : RunScoped tool limit) (hwindow : 0 < limit.windowSeconds) (runId : String)
    (now : ℚ) (k : ℕ) : ∀ {n : ℕ} {s : LimiterState}, (n + k : ℤ) ≤ limit.maxCalls →
    (∀ entry ∈ s.log, entry.1.now = now ∧ entry.1.runId = runId) →
    s.history.getD (limit.makeKey tool.name) [] = List.replicate n now →
    ∃ t, Lib.run limiterStep (List.replicate k (LimitedCall.plain tool runId now)) s = some t ∧
      (∀ entry ∈ t.log, entry.1.now = now ∧ entry.1.runId = runId) ∧
      t.history.getD (limit.makeKey tool.name) [] = List.replicate (n + k) now := by
  induction k with
  | zero => exact fun _ hlog hhistory => ⟨_, rfl, hlog, hhistory⟩
  | succ k ih =>
      intro n s hroom hlog hhistory
      obtain ⟨-, hnext⟩ := check_replicate hwindow hhistory
      have hstep : limiterStep s (LimitedCall.plain tool runId now) = some _ :=
        limiterStep_of_le fun entry hentry => le_of_eq (hlog entry hentry).1
      have hlogNext : ∀ entry ∈ (s.next (LimitedCall.plain tool runId now)).log,
          entry.1.now = now ∧ entry.1.runId = runId := by
        intro entry hentry
        rcases List.mem_append.mp hentry with hentry | hentry
        · exact hlog entry hentry
        · rw [List.mem_singleton.mp hentry]
          exact ⟨rfl, rfl⟩
      have hhistoryNext : (s.next (LimitedCall.plain tool runId now)).history.getD
          (limit.makeKey tool.name) [] = List.replicate (n + 1) now := by
        unfold LimiterState.next
        rw [(run_plain h runId now s.history).2]
        exact hnext (by push_cast at hroom; omega)
      have hroomNext : ((n + 1 : ℕ) + k : ℤ) ≤ limit.maxCalls := by
        push_cast at hroom ⊢
        omega
      obtain ⟨t, hrun, hlog', hhistory'⟩ := ih hroomNext hlogNext hhistoryNext
      refine ⟨t, ?_, hlog', ?_⟩
      · rw [List.replicate_succ, Lib.run, hstep]
        exact hrun
      · rw [hhistory', Nat.add_right_comm, Nat.add_assoc]

/-- The calls of other runs do not show in the decisions about a run. -/
theorem decisions_next {s : LimiterState} {runId : String} {call : LimitedCall} (hcall : call.runId = runId)
    (hlog : ∀ entry ∈ s.log, entry.1.runId ≠ runId) :
    (s.next call).decisions runId = [call.admitted s.history] := by
  have hnone : (s.log.filter fun entry => entry.1.madeBy runId) = [] :=
    List.filter_eq_nil_iff.mpr fun entry hentry hmade => hlog entry hentry (of_decide_eq_true hmade)
  have hmade : call.madeBy runId = true := decide_eq_true hcall
  unfold LimiterState.decisions LimiterState.next
  rw [List.filter_append, hnone, List.filter_singleton, hmade]
  rfl

/-- A limit that is not idle lets the calls of one run decide about another. -/
theorem not_independent (h : RunScoped tool limit) (hmax : 0 < limit.maxCalls)
    (hwindow : 0 < limit.windowSeconds) : ¬Independent tool := by
  intro hindependent
  obtain ⟨n, hn⟩ := Int.eq_ofNat_of_zero_le hmax.le
  have hfresh : ∀ entry ∈ ({} : LimiterState).log, entry.1.now = 0 ∧ entry.1.runId = "b" :=
    fun entry hentry => absurd hentry List.not_mem_nil
  have hempty : ({} : LimiterState).history.getD (limit.makeKey tool.name) [] = List.replicate 0 (0 : ℚ) := rfl
  have hstep : ∀ s : LimiterState, (∀ entry ∈ s.log, entry.1.now = 0 ∧ entry.1.runId = "b") →
      Lib.run limiterStep [LimitedCall.plain tool "a" 0] s = some (s.next (LimitedCall.plain tool "a" 0)) := by
    intro s hlog
    rw [Lib.run, limiterStep_of_le fun entry hentry => le_of_eq (hlog entry hentry).1]
    rfl
  have hdecide : ∀ s : LimiterState, (∀ entry ∈ s.log, entry.1.now = 0 ∧ entry.1.runId = "b") →
      (s.next (LimitedCall.plain tool "a" 0)).decisions "a" =
        [(LimitedCall.plain tool "a" 0).admitted s.history] := by
    intro s hlog
    refine decisions_next rfl fun entry hentry heq => ?_
    rw [(hlog entry hentry).2] at heq
    exact absurd heq (by decide)
  -- run `b` fills the limit, then run `a` makes its call
  obtain ⟨t, hrun, hlog, hhistory⟩ := run_replicate h hwindow "b" 0 n (by omega) hfresh hempty
  rw [Nat.zero_add] at hhistory
  have hfull : Lib.run limiterStep
      (List.replicate n (LimitedCall.plain tool "b" 0) ++ [LimitedCall.plain tool "a" 0]) {} =
        some (t.next (LimitedCall.plain tool "a" 0)) := by
    rw [Lib.run_append, hrun]
    exact hstep t hlog
  have halone : (LimitedCall.plain tool "a" 0).admitted ({} : LimiterState).history = true := by
    rw [(run_plain h "a" 0 _).1, (check_replicate hwindow hempty).1]
    exact_mod_cast hmax
  have hrefused : (LimitedCall.plain tool "a" 0).admitted t.history = false := by
    rw [(run_plain h "a" 0 _).1, ← Bool.not_eq_true, (check_replicate hwindow hhistory).1]
    omega
  have hothers : (List.replicate n (LimitedCall.plain tool "b" 0)).filter (LimitedCall.madeBy "a") = [] := by
    rw [List.filter_eq_nil_iff]
    intro call hcall
    rw [List.eq_of_mem_replicate hcall]
    exact of_decide_eq_true rfl
  have hsame := hindependent "a" [LimitedCall.plain tool "a" 0] _ _ _ ?_ ?_ ?_ (hstep {} hfresh) hfull
  · rw [hdecide {} hfresh, hdecide t hlog, halone, hrefused] at hsame
    exact absurd hsame (by decide)
  · intro call hcall
    rw [List.mem_singleton.mp hcall]
    rfl
  · intro call hcall
    rcases List.mem_append.mp hcall with hcall | hcall
    · rw [List.eq_of_mem_replicate hcall]
      rfl
    · rw [List.mem_singleton.mp hcall]
      rfl
  · rw [List.filter_append, hothers]
    rfl

end interference

/-- **When run-scoped limits keep runs apart**: for a tool with one rate limit, of scope `run`, exactly when
the limit refuses every call or counts none. -/
theorem scope_run_independent_iff {tool : LimitedTool} {limit : RateLimit} (h : RunScoped tool limit) :
    Independent tool ↔ limit.maxCalls ≤ 0 ∨ limit.windowSeconds ≤ 0 := by
  constructor
  · intro hindependent
    by_contra hidle
    rw [not_or, not_le, not_le] at hidle
    exact not_independent h hidle.1 hidle.2 hindependent
  · intro hidle
    obtain ⟨front, back, hguardrails, hfront, hback⟩ := h.only
    refine independent_of_idle fun other hmem => ?_
    rw [hguardrails, List.mem_append, List.mem_cons] at hmem
    rcases hmem with hmem | heq | hmem
    · exact absurd hmem (hfront other)
    · obtain rfl := Attached.rateLimit.inj heq
      exact hidle
    · exact absurd hmem (hback other)

/-- A tool with a limit of one call a minute for each run. -/
def perRunTool : LimitedTool := ⟨"search", [.rateLimit { maxCalls := 1, scope := "run" }]⟩

theorem perRunTool_runScoped : RunScoped perRunTool { maxCalls := 1, scope := "run" } :=
  ⟨⟨[], [], rfl, fun _ => List.not_mem_nil, fun _ => List.not_mem_nil⟩, rfl⟩

/-- The equivalence for this tool, whose limit is not idle. -/
theorem per_run_limit_depends : RunScoped perRunTool { maxCalls := 1, scope := "run" } ∧
    ¬Independent perRunTool := by
  refine ⟨perRunTool_runScoped, fun h => ?_⟩
  have hidle := (scope_run_independent_iff perRunTool_runScoped).mp h
  exact absurd hidle (by decide)

/-- **Another run uses the limit up**: the same call of run `a` is admitted alone and refused after a call of
run `b`. -/
theorem other_run_decides :
    (callsAt perRunTool "a" [0]).filter (LimitedCall.madeBy "a") =
        (callsAt perRunTool "b" [0] ++ callsAt perRunTool "a" [0]).filter (LimitedCall.madeBy "a") ∧
      (Lib.run limiterStep (callsAt perRunTool "a" [0]) {}).map (·.decisions "a") = some [true] ∧
      (Lib.run limiterStep (callsAt perRunTool "b" [0] ++ callsAt perRunTool "a" [0]) {}).map
        (·.decisions "a") = some [false] :=
  ⟨rfl, by decide +kernel, by decide +kernel⟩

end JAgent
