import JAgent.Lib.System
import JAgent.Tools.Executor
import JAgent.Tools.Mcp

/-! # Calls in flight

The calls of one run as a transition system.  A call is made at any time and takes its actions
one by one, in any order with those of the other calls; between two actions the operator may
answer a request for confirmation, another writer may append an event of its own, and the world
may change.  `flights` keeps every call ever made, so that what a call did can be asked later.

The first part says what one action of a call can do: to the log (`stepCall_log`) and to its own
program counter.  The second part follows a key through a run: as long as no call looks its key
up while another call with the same key is on its way from a miss to its end, at most one of
them runs the tool function to success (`success_at_most_once`). -/

namespace JAgent

/-- A call that has been made.  `demanded` remembers that its contract or a guardrail demanded a
confirmation. -/
structure CallFlight (W : Type) where
  proc : Proc W
  demanded : Bool := false

/-- The calls of a run and what they share. -/
structure Traffic (W : Type) where
  flights : List (CallFlight W)
  shared : Shared W

/-- What can happen next. -/
inductive Happening (W : Type) where
  /-- `execute` is called. -/
  | call (c : Call W)
  /-- A call takes its next action. -/
  | act (i : ℕ)
  /-- The operator answers. -/
  | answer (confirmationId : String) (confirmed : Bool) (operatorId : String)
  /-- Another part of the system appends an event. -/
  | note (payload : Payload)
  /-- The world changes by itself. -/
  | outside (w : W)

/-- The entries of a list after one of them was replaced. -/
theorem getElem?_set_cases {α : Type} {l : List α} {i j : ℕ} {a b : α}
    (h : (l.set i a)[j]? = some b) : (j = i ∧ b = a) ∨ (j ≠ i ∧ l[j]? = some b) := by
  rw [List.getElem?_set] at h
  split_ifs at h with hij hlt
  · exact .inl ⟨hij.symm, (Option.some.inj h).symm⟩
  · exact .inr ⟨fun hji => hij hji.symm, h⟩

/-- A call at its lookup goes on only with a confirmation. -/
def Proc.demands {W : Type} (p : Proc W) : Bool :=
  match p.pc with
  | .looking confirm => p.call.td.effectiveRequiresConfirmation p.call.input || confirm
  | _ => false

namespace ToolExecutor
variable {W : Type} [Py] (x : ToolExecutor W)

/-- One step of a run.  Events of tools and confirmations are appended by `execute` and by the
operator only. -/
def trafficStep (t : Traffic W) : Happening W → Option (Traffic W)
  | .call c => some { t with flights := t.flights ++ [{ proc := start c }] }
  | .act i => match t.flights[i]? with
    | none => none
    | some f =>
      if f.proc.pc.finished then none
      else
        let (p, shared) := x.stepCall f.proc t.shared
        some { flights := t.flights.set i ⟨p, f.demanded || f.proc.demands⟩, shared }
  | .answer cid confirmed operatorId =>
    some { t with shared := { t.shared with log := t.shared.log.confirmRun cid confirmed operatorId } }
  | .note payload =>
    if payload.eventType = .tool ∨ payload.eventType = .confirmation then none
    else some { t with shared := { t.shared with log := t.shared.log.appendEvent payload } }
  | .outside w => some { t with shared := { t.shared with world := w } }

/-- A run that has made no call yet. -/
def idle (w : W) : Traffic W := { flights := [], shared := ⟨[], w⟩ }

/-! ### What one action can do -/

/-- The completion a call records. -/
def completion (p : Proc W) (persisted : Value) : Payload :=
  .toolCompleted { toolCallId := p.toolCallId, toolName := p.call.toolName, output := persisted
                   stepId := p.call.stepId }

/-- The confirmation a call asks for. -/
def confirmationRequest (p : Proc W) : ConfirmationRequestedPayload :=
  { confirmationId := p.call.confirmationId, toolCallId := p.toolCallId
    toolName := p.call.toolName, input := p.call.input, idempotencyKey := x.confirmKey p.call
    stepId := p.call.stepId }

/-- **An action and the log.**  Only the recording of a completion and the request of a
confirmation append under a key; every other action appends an event of the tool, which the
lookups cannot find. -/
theorem stepCall_log (p : Proc W) (s : Shared W) :
    (x.stepCall p s).2.log = s.log ∨
    (∃ payload, payload.eventType = .tool ∧ (x.stepCall p s).2.log = s.log.appendEvent payload) ∨
    (p.pc = .asking ∧ (x.stepCall p s).2.log =
      s.log.appendKeyed (.confirmationRequested (x.confirmationRequest p))
        (some (x.confirmKey p.call))) ∨
    ∃ output persisted n, p.pc = .recording output persisted n ∧
      (x.stepCall p s).2.log = s.log.appendKeyed (completion p persisted) (x.key p.call) := by
  obtain ⟨c, tid, pc⟩ := p
  cases pc with
  | asking => exact .inr (.inr (.inl ⟨rfl, rfl⟩))
  | recording output persisted n => exact .inr (.inr (.inr ⟨output, persisted, n, rfl, rfl⟩))
  | _ =>
      unfold stepCall goto emit
      dsimp only
      repeat' split
      all_goals first
        | exact .inl rfl
        | exact .inr (.inl ⟨_, rfl, rfl⟩)

/-- The rows of a log stay when an action appends. -/
theorem mem_stepCall {p : Proc W} {s : Shared W} {row : Row} (h : row ∈ s.log) :
    row ∈ (x.stepCall p s).2.log := by
  rcases x.stepCall_log p s with heq | ⟨payload, _, heq⟩ | ⟨_, heq⟩ | ⟨_, _, _, _, heq⟩
  · rw [heq]
    exact h
  · rw [heq]
    exact Log.mem_appendEvent.mpr (.inl h)
  · rw [heq]
    exact Log.mem_appendKeyed h
  · rw [heq]
    exact Log.mem_appendKeyed h

/-- **The log of a run only grows.** -/
theorem mem_trafficStep {t u : Traffic W} {e : Happening W} (hs : x.trafficStep t e = some u)
    {row : Row} (h : row ∈ t.shared.log) : row ∈ u.shared.log := by
  cases e with
  | call c =>
      obtain rfl := Option.some.inj hs
      exact h
  | act i =>
      simp only [trafficStep] at hs
      split at hs
      · cases hs
      · split_ifs at hs
        obtain rfl := Option.some.inj hs
        exact x.mem_stepCall h
  | answer cid b op =>
      obtain rfl := Option.some.inj hs
      exact Log.mem_confirmRun h
  | note payload =>
      simp only [trafficStep] at hs
      split_ifs at hs
      obtain rfl := Option.some.inj hs
      exact Log.mem_appendEvent.mpr (.inl h)
  | outside w =>
      obtain rfl := Option.some.inj hs
      exact h

/-- **Where a keyed row comes from**: a call that asks for a confirmation, a call that records its
completion, or an answer of the operator. -/
theorem keyed_row_trafficStep {t u : Traffic W} {e : Happening W} (hs : x.trafficStep t e = some u)
    {row : Row} (h : row ∈ u.shared.log) (hk : row.idempotencyKey ≠ none) :
    row ∈ t.shared.log ∨ (∃ p, row.payload = .confirmationReceived p) ∨
      ∃ i f, e = .act i ∧ t.flights[i]? = some f ∧
        ((f.proc.pc = .asking ∧
          row.payload = .confirmationRequested (x.confirmationRequest f.proc) ∧
          row.idempotencyKey = some (x.confirmKey f.proc.call)) ∨
        ∃ output persisted n, f.proc.pc = .recording output persisted n ∧
          row.payload = completion f.proc persisted ∧ row.idempotencyKey = x.key f.proc.call) := by
  have hunkeyed : ∀ {log : Log} {payload : Payload}, row ∈ log.appendEvent payload → row ∈ log := by
    intro log payload hmem
    rcases Log.mem_appendEvent.mp hmem with hold | rfl
    · exact hold
    · exact absurd rfl hk
  cases e with
  | call c =>
      obtain rfl := Option.some.inj hs
      exact .inl h
  | act i =>
      simp only [trafficStep] at hs
      split at hs
      · cases hs
      next f hf =>
        split_ifs at hs
        obtain rfl := Option.some.inj hs
        simp only at h
        rcases x.stepCall_log f.proc t.shared with heq | ⟨payload, _, heq⟩ | ⟨hpc, heq⟩ |
            ⟨output, persisted, n, hpc, heq⟩
        · rw [heq] at h
          exact .inl h
        · rw [heq] at h
          exact .inl (hunkeyed h)
        · rw [heq] at h
          rcases Log.mem_of_mem_appendKeyed h with hold | rfl
          · exact .inl hold
          · exact .inr (.inr ⟨i, f, rfl, hf, .inl ⟨hpc, rfl, rfl⟩⟩)
        · rw [heq] at h
          rcases Log.mem_of_mem_appendKeyed h with hold | rfl
          · exact .inl hold
          · exact .inr (.inr ⟨i, f, rfl, hf, .inr ⟨output, persisted, n, hpc, rfl, rfl⟩⟩)
  | answer cid b op =>
      obtain rfl := Option.some.inj hs
      simp only [Log.confirmRun] at h
      split at h
      · rcases Log.mem_of_mem_appendKeyed h with hold | rfl
        · exact .inl hold
        · exact .inr (.inl ⟨_, rfl⟩)
      · exact .inl h
  | note payload =>
      simp only [trafficStep] at hs
      split_ifs at hs
      obtain rfl := Option.some.inj hs
      exact .inl (hunkeyed h)
  | outside w =>
      obtain rfl := Option.some.inj hs
      exact .inl h

/-- A call that has ended stays as it is, and every call stays at its place. -/
theorem stays_trafficStep {t u : Traffic W} {e : Happening W} (hs : x.trafficStep t e = some u)
    {i : ℕ} {f : CallFlight W} (hf : t.flights[i]? = some f) :
    ∃ g, u.flights[i]? = some g ∧ g.proc.call = f.proc.call ∧
      (f.proc.pc.finished = true → g = f) := by
  have hlt := (List.getElem?_eq_some_iff.mp hf).1
  cases e with
  | call c =>
      obtain rfl := Option.some.inj hs
      refine ⟨f, ?_, rfl, fun _ => rfl⟩
      simp only
      rw [List.getElem?_append_left hlt]
      exact hf
  | act j =>
      simp only [trafficStep] at hs
      split at hs
      · cases hs
      next f' hf' =>
        split_ifs at hs with hfin
        obtain rfl := Option.some.inj hs
        by_cases hij : j = i
        · subst hij
          obtain rfl : f' = f := Option.some.inj (hf'.symm.trans hf)
          refine ⟨_, List.getElem?_set_self hlt, x.stepCall_call _ _, fun h => absurd h hfin⟩
        · refine ⟨f, ?_, rfl, fun _ => rfl⟩
          rw [List.getElem?_set_ne hij]
          exact hf
  | answer cid b op =>
      obtain rfl := Option.some.inj hs
      exact ⟨f, hf, rfl, fun _ => rfl⟩
  | note payload =>
      simp only [trafficStep] at hs
      split_ifs at hs
      obtain rfl := Option.some.inj hs
      exact ⟨f, hf, rfl, fun _ => rfl⟩
  | outside w =>
      obtain rfl := Option.some.inj hs
      exact ⟨f, hf, rfl, fun _ => rfl⟩

end ToolExecutor

/-! ### The way of a call -/

/-- The call has missed its lookup and has not ended. -/
def CallPc.onItsWay : CallPc → Bool
  | .guarding | .blocked _ | .looking _ | .returned _ | .raised _ => false
  | _ => true

/-- The tool function has run to success. -/
def CallPc.succeeded : CallPc → Bool
  | .offloading .. | .noting .. | .recording .. => true
  | .returned r => r.status = .completed && !r.hasSemanticError
  | _ => false

/-- The call is at its lookup. -/
def CallPc.isLooking : CallPc → Bool
  | .looking _ => true
  | _ => false

/-- A result that is neither a success nor an answer from the record. -/
def CallResult.IsError (r : CallResult) : Prop :=
  r.status = .failed ∨ r.status = .timeout ∨ r.status = .guardrailBlocked ∨
    r.status = .confirmationNeeded ∨ (r.status = .completed ∧ r.hasSemanticError = true)

namespace ToolExecutor
variable {W : Type} [Py] (x : ToolExecutor W)

theorem onItsWay_afterInvoke (p : Proc W) (attempt : ℕ) (a : Answer) :
    (x.afterInvoke p attempt a).onItsWay = true := by
  unfold afterInvoke afterOutput
  repeat' split
  all_goals rfl

/-- A call is on its way after an action only if it was, or if it has just missed its key. -/
theorem onItsWay_stepCall {p : Proc W} {s : Shared W}
    (h : (x.stepCall p s).1.pc.onItsWay = true) :
    p.pc.onItsWay = true ∨ (p.pc.isLooking = true ∧
      ∀ k, x.key p.call = some k → s.log.findByIdempotencyKey .tool k = none) := by
  obtain ⟨c, tid, pc⟩ := p
  cases pc with
  | guarding =>
      simp only [stepCall, goto] at h
      repeat' split at h
      all_goals simp [CallPc.onItsWay] at h
  | looking confirm =>
      refine .inr ⟨rfl, fun k hk => ?_⟩
      simp only at hk
      simp only [stepCall, goto, hk] at h
      split at h
      · assumption
      · split at h <;> simp [CallPc.onItsWay] at h
  | blocked r => simp [stepCall, emit, CallPc.onItsWay] at h
  | returned r => simp [stepCall, CallPc.onItsWay] at h
  | raised e => simp [stepCall, CallPc.onItsWay] at h
  | _ => exact .inl rfl

/-- A call returns a success only by recording it. -/
theorem recording_of_returned {p : Proc W} {s : Shared W} {r : CallResult}
    (hf : p.pc.finished = false) (h : (x.stepCall p s).1.pc = .returned r)
    (hr : r.status = .completed ∧ r.hasSemanticError = false) :
    ∃ output persisted n, p.pc = .recording output persisted n := by
  obtain ⟨c, tid, pc⟩ := p
  cases pc with
  | recording output persisted n => exact ⟨output, persisted, n, rfl⟩
  | invoking attempt =>
      have hway := x.onItsWay_afterInvoke ⟨c, tid, .invoking attempt⟩ attempt (c.toolFn s.world).1
      have hpc : x.afterInvoke ⟨c, tid, .invoking attempt⟩ attempt (c.toolFn s.world).1 =
          .returned r := h
      rw [hpc] at hway
      cases hway
  | returned r' => simp [CallPc.finished] at hf
  | raised e => simp [CallPc.finished] at hf
  | looking confirm =>
      simp only [stepCall, goto, afterMiss] at h
      repeat' split at h
      all_goals first
        | cases h; simp [result] at hr
        | cases h
  | _ =>
      simp only [stepCall, goto, emit, afterCalled] at h
      repeat' split at h
      all_goals first
        | cases h; simp [result] at hr
        | cases h

/-- **What a run step does to the calls.**  A new call is at its start; a call that acts makes its
next action; every other call is as it was. -/
theorem flight_trafficStep {t u : Traffic W} {e : Happening W} (hs : x.trafficStep t e = some u)
    {j : ℕ} {g : CallFlight W} (hg : u.flights[j]? = some g) :
    t.flights[j]? = some g ∨ (∃ c, g = { proc := start c }) ∨
      ∃ f, e = .act j ∧ t.flights[j]? = some f ∧ f.proc.pc.finished = false ∧
        g = ⟨(x.stepCall f.proc t.shared).1, f.demanded || f.proc.demands⟩ ∧
        u.shared = (x.stepCall f.proc t.shared).2 := by
  cases e with
  | call c =>
      obtain rfl := Option.some.inj hs
      simp only at hg
      rw [List.getElem?_append] at hg
      split_ifs at hg with hlt
      · exact .inl hg
      · obtain ⟨_, hmem⟩ := List.getElem?_eq_some_iff.mp hg
        refine .inr (.inl ⟨c, ?_⟩)
        rw [← hmem]
        simp
  | act i =>
      simp only [trafficStep] at hs
      split at hs
      · cases hs
      next f hf =>
        split_ifs at hs with hfin
        obtain rfl := Option.some.inj hs
        rcases getElem?_set_cases hg with ⟨rfl, rfl⟩ | ⟨_, hold⟩
        · exact .inr (.inr ⟨f, rfl, hf, by simpa using hfin, rfl, rfl⟩)
        · exact .inl hold
  | answer cid b op =>
      obtain rfl := Option.some.inj hs
      exact .inl hg
  | note payload =>
      simp only [trafficStep] at hs
      split_ifs at hs
      obtain rfl := Option.some.inj hs
      exact .inl hg
  | outside w =>
      obtain rfl := Option.some.inj hs
      exact .inl hg

/-! ### One key in a run -/

/-- No call looks its key up while another call with this key is on its way. -/
def looksUpAlone (t : Traffic W) : Happening W → Bool
  | .act i => match t.flights[i]? with
    | none => true
    | some f => !f.proc.pc.isLooking || x.key f.proc.call = none ||
        t.flights.all fun g => x.key g.proc.call ≠ x.key f.proc.call || !g.proc.pc.onItsWay
  | _ => true

/-- A call with the key `k` that is on its way or has run the tool function to success. -/
def Holds (k : String) (f : CallFlight W) : Prop :=
  x.key f.proc.call = some k ∧ (f.proc.pc.onItsWay = true ∨ f.proc.pc.succeeded = true)

/-- At most one call holds a key, and a success that was returned is recorded. -/
structure OneHolder (t : Traffic W) : Prop where
  unique : ∀ {k : String} {i j : ℕ} {f g : CallFlight W}, t.flights[i]? = some f → t.flights[j]? = some g → x.Holds k f →
    x.Holds k g → i = j
  recorded : ∀ {k : String} {f : CallFlight W}, f ∈ t.flights → x.key f.proc.call = some k → f.proc.pc.succeeded = true →
    f.proc.pc.finished = true → t.shared.log.findByIdempotencyKey .tool k ≠ none

/-- A call holds its key after an action only if it did, or if it has just missed it. -/
theorem holds_stepCall {k : String} {f : CallFlight W} {s : Shared W} {d : Bool}
    (hf : f.proc.pc.finished = false) (h : x.Holds k ⟨(x.stepCall f.proc s).1, d⟩) :
    x.Holds k f ∨ (f.proc.pc.isLooking = true ∧ x.key f.proc.call = some k ∧
      s.log.findByIdempotencyKey .tool k = none) := by
  obtain ⟨hk, hpc⟩ := h
  simp only [stepCall_call] at hk
  have hway : (x.stepCall f.proc s).1.pc.onItsWay = true →
      x.Holds k f ∨ (f.proc.pc.isLooking = true ∧ x.key f.proc.call = some k ∧
        s.log.findByIdempotencyKey .tool k = none) := by
    intro h
    rcases x.onItsWay_stepCall h with hold | ⟨hl, hmiss⟩
    · exact .inl ⟨hk, .inl hold⟩
    · exact .inr ⟨hl, hk, hmiss k hk⟩
  rcases hpc with h | h
  · exact hway h
  · cases hq : (x.stepCall f.proc s).1.pc with
    | returned r =>
        simp only [hq, CallPc.succeeded, Bool.and_eq_true, decide_eq_true_eq,
          Bool.not_eq_true'] at h
        obtain ⟨output, persisted, n, hrec⟩ := x.recording_of_returned hf hq h
        exact .inl ⟨hk, .inl (by rw [hrec]; rfl)⟩
    | offloading output n => exact hway (by rw [hq]; rfl)
    | noting output blob n => exact hway (by rw [hq]; rfl)
    | recording output persisted n => exact hway (by rw [hq]; rfl)
    | _ => simp [hq, CallPc.succeeded] at h

theorem OneHolder.step {t u : Traffic W} {e : Happening W} (h : x.OneHolder t)
    (hok : x.looksUpAlone t e = true) (hs : x.trafficStep t e = some u) : x.OneHolder u := by
  have hlog : ∀ {k : String}, t.shared.log.findByIdempotencyKey .tool k ≠ none →
      u.shared.log.findByIdempotencyKey .tool k ≠ none := by
    intro k hk
    rw [Log.findByIdempotencyKey_ne_none_iff] at hk ⊢
    obtain ⟨row, hrow, hp⟩ := hk
    exact ⟨row, x.mem_trafficStep hs hrow, hp⟩
  -- a call that gets hold of a key by missing it finds nobody else holding it
  have hold : ∀ {k : String} {j : ℕ} {g : CallFlight W}, u.flights[j]? = some g → x.Holds k g →
      (∃ f, t.flights[j]? = some f ∧ x.Holds k f) ∨
        e = .act j ∧ ∀ (i : ℕ) (f : CallFlight W), t.flights[i]? = some f → ¬x.Holds k f := by
    intro k j g hg hk
    rcases x.flight_trafficStep hs hg with hsame | ⟨c, rfl⟩ | ⟨f, rfl, hf, hfin, rfl, _⟩
    · exact .inl ⟨g, hsame, hk⟩
    · rcases hk.2 with h | h <;> cases h
    · rcases x.holds_stepCall hfin hk with hold | ⟨hl, hkey, hmiss⟩
      · exact .inl ⟨f, hf, hold⟩
      · refine .inr ⟨rfl, fun i f' hf' hk' => ?_⟩
        have hmem := List.mem_of_getElem? hf'
        have hnot : f'.proc.pc.onItsWay = false := by
          simp only [looksUpAlone, hf, hl, hkey, Bool.not_true, Bool.false_or, reduceCtorEq,
            decide_false, List.all_eq_true, Bool.or_eq_true, decide_eq_true_eq,
            Bool.not_eq_true'] at hok
          rcases hok f' hmem with hne | hno
          · exact absurd hk'.1 hne
          · exact hno
        have hsucc : f'.proc.pc.succeeded = true := by
          rcases hk'.2 with hw | hs'
          · rw [hnot] at hw
            cases hw
          · exact hs'
        have hdone : f'.proc.pc.finished = true := by
          cases hq : f'.proc.pc <;> simp [hq, CallPc.succeeded, CallPc.onItsWay, CallPc.finished] at hsucc hnot ⊢
        exact h.recorded hmem hk'.1 hsucc hdone hmiss
  refine ⟨?_, ?_⟩
  · intro k i j f g hf hg hkf hkg
    rcases hold hf hkf with ⟨f', hf', hkf'⟩ | ⟨hact, hnone⟩
    · rcases hold hg hkg with ⟨g', hg', hkg'⟩ | ⟨_, hnone⟩
      · exact h.unique hf' hg' hkf' hkg'
      · exact absurd hkf' (hnone i f' hf')
    · rcases hold hg hkg with ⟨g', hg', hkg'⟩ | ⟨hact', _⟩
      · exact absurd hkg' (hnone j g' hg')
      · rw [hact] at hact'
        exact Happening.act.inj hact'
  · intro k f hf hk hsucc hfin
    obtain ⟨j, hj⟩ := List.mem_iff_getElem?.mp hf
    rcases x.flight_trafficStep hs hj with hsame | ⟨c, rfl⟩ | ⟨f', rfl, hf', hfin', rfl, hu⟩
    · exact hlog (h.recorded (List.mem_of_getElem? hsame) hk hsucc hfin)
    · cases hsucc
    · cases hq : (x.stepCall f'.proc t.shared).1.pc with
      | returned r =>
          simp only [hq, CallPc.succeeded, Bool.and_eq_true, decide_eq_true_eq,
            Bool.not_eq_true'] at hsucc
          obtain ⟨output, persisted, n, hrec⟩ := x.recording_of_returned hfin' hq hsucc
          simp only [stepCall_call] at hk
          rw [hu]
          simp only [stepCall, hrec, hk]
          exact Log.findByIdempotencyKey_appendKeyed _ k
      | raised e => simp [hq, CallPc.succeeded] at hsucc
      | _ => simp [hq, CallPc.finished] at hfin

/-- At most one call with the key `k` runs the tool function to success, and every other call
with this key that returns gives the recorded answer or an error. -/
def SucceedsOnce (t : Traffic W) (k : String) : Prop :=
  ∀ (i j : ℕ) (f g : CallFlight W), t.flights[i]? = some f → t.flights[j]? = some g →
    x.key f.proc.call = some k → x.key g.proc.call = some k →
    f.proc.pc.succeeded = true → i ≠ j →
      g.proc.pc.succeeded = false ∧
        ∀ r, g.proc.pc = .returned r → r.status = .idempotencyHit ∨ r.IsError

/-- **At most one success for each key.**  In every run in which no call looks its key up while
another call with this key is on its way. -/
theorem success_at_most_once {w : W} {t : Traffic W}
    (h : Lib.ReachesVia x.trafficStep (fun t e => x.looksUpAlone t e = true) (idle w) t)
    (k : String) : x.SucceedsOnce t k := by
  have hinit : x.OneHolder (idle w) := by
    refine ⟨?_, ?_⟩
    · intro k i j f g hf
      simp [idle] at hf
    · intro k f hf
      cases hf
  have hinv : x.OneHolder t :=
    h.invariant hinit fun t u e _ hok ht hs => ht.step x hok hs
  intro i j f g hf hg hkf hkg hsucc hij
  have hnot : g.proc.pc.succeeded = false := by
    by_contra hg'
    exact hij (hinv.unique hf hg ⟨hkf, .inr hsucc⟩ ⟨hkg, .inr (by simpa using hg')⟩)
  refine ⟨hnot, fun r hr => ?_⟩
  rw [hr] at hnot
  simp only [CallPc.succeeded, Bool.and_eq_false_iff, decide_eq_false_iff_not,
    Bool.not_eq_false'] at hnot
  cases hst : r.status <;> simp_all [CallResult.IsError]

end ToolExecutor

/-! ### Two equal calls at once -/

section scenario
attribute [local instance] asciiPy

/-- An executor with the scope guardrail, for tools without scope targets. -/
def remoteExecutor : ToolExecutor ℕ :=
  { digest := id
    guardrails :=
      { schemaError := fun _ _ => none
        dependencyCheck := fun _ _ _ => ⟨true, "dependency", "", false⟩
        registry := fun kind =>
          if kind = "scope" then some (scopeCheck (fun path => .ok path) fun _ _ _ => none)
          else none } }

/-- A server that counts the requests it gets and answers all of them. -/
def serve : ℕ → Answer × ℕ := fun n =>
  (.ok (.obj [("success", .bool true), ("content", .arr [.str "sent"])]), n + 1)

/-- Send a message through `mcp_call`. -/
def sendMessage (toolCallId : String) : Call ℕ :=
  { toolName := "mcp_call"
    input := [("server_name", .str "mail"), ("tool_name", .str "send"),
      ("arguments", .obj [("to", .str "bob")])]
    td := mcpCall, toolFn := serve, toolCallId, confirmationId := "c" }

/-- Both calls miss the key before either has recorded its completion. -/
theorem equal_calls_at_once_both_succeed : ∃ t,
    Lib.Reaches remoteExecutor.trafficStep (ToolExecutor.idle 0) t ∧
      ∃ k, ¬remoteExecutor.SucceedsOnce t k := by
  let moves : List (Happening ℕ) := [.call (sendMessage "t1"), .call (sendMessage "t2"),
    .act 0, .act 0, .act 1, .act 1, .act 0, .act 0, .act 1, .act 1]
  let key := (remoteExecutor.key (sendMessage "t1")).getD ""
  obtain ⟨t, ht, hp⟩ := Lib.exists_reaches_of_run remoteExecutor.trafficStep moves
    (ToolExecutor.idle 0) (fun t => t.shared.world = 2 && t.flights.length = 2 &&
      t.flights.all fun f => remoteExecutor.key f.proc.call = some key && f.proc.pc.succeeded)
    (by decide +kernel)
  simp only [Bool.and_eq_true, decide_eq_true_eq, List.all_eq_true] at hp
  obtain ⟨⟨_, hlen⟩, hall⟩ := hp
  refine ⟨t, ht, key, fun h => ?_⟩
  have h0 := List.getElem?_eq_getElem (l := t.flights) (i := 0) (by omega)
  have h1 := List.getElem?_eq_getElem (l := t.flights) (i := 1) (by omega)
  have hf := hall _ (List.mem_of_getElem? h0)
  have hg := hall _ (List.mem_of_getElem? h1)
  have hno := (h 0 1 _ _ h0 h1 hf.1 hg.1 hf.2 (by decide)).1
  rw [hg.2] at hno
  cases hno

/-- One call after the other: the second one gets the recorded answer. -/
theorem equal_calls_in_turn_succeed_once : ∃ t,
    Lib.ReachesVia remoteExecutor.trafficStep
      (fun t e => remoteExecutor.looksUpAlone t e = true) (ToolExecutor.idle 0) t ∧
      (t.shared.world = 1 ∧ t.flights.length = 2) ∧
      ∀ k, remoteExecutor.SucceedsOnce t k := by
  let moves : List (Happening ℕ) := [.call (sendMessage "t1"), .call (sendMessage "t2"),
    .act 0, .act 0, .act 0, .act 0, .act 0, .act 0, .act 1, .act 1]
  obtain ⟨t, ht, hp⟩ := Lib.exists_reachesVia_of_run remoteExecutor.trafficStep
    remoteExecutor.looksUpAlone moves (ToolExecutor.idle 0)
    (fun t => decide (t.shared.world = 1 ∧ t.flights.length = 2) &&
      t.flights.all fun f => f.proc.pc.finished) (by decide +kernel)
  simp only [Bool.and_eq_true, decide_eq_true_eq] at hp
  exact ⟨t, ht, hp.1, fun k => remoteExecutor.success_at_most_once ht k⟩

end scenario
end JAgent
