import JAgent.Tools.Repeats

/-! # A recorded answer and the answer it was

A call that completes returns the output of the tool function and records it under its key; a later call
with the key returns what is recorded.  A large output is not recorded as it is: it goes to a blob of the
workspace, and the record holds a placeholder.  The call that ran the tool function returns the output
all the same, the later call returns the placeholder, and a step that refers to a field of the output
finds it in one case and not in the other.

`Faithful` says that every success that was returned is recorded as it was.  One step keeps it if no
output of a call with a key is offloaded and no call records over the completion of another one
(`answersKept`); a lookup then returns what every ended call with the key has returned
(`cached_answer_is_original`). -/

namespace JAgent

namespace Log
variable (log : Log)

/-- The output recorded under a key. -/
def recordedOutput (key : String) : Option Value :=
  match log.findByIdempotencyKey .tool key with
  | some row => match row.payload with
    | .toolCompleted done => some done.output
    | _ => none
  | none => none

variable {log}

theorem recordedOutput_of_find {key : String} {row : Row} {done : ToolCompletedPayload}
    (h : log.findByIdempotencyKey .tool key = some row) (hp : row.payload = .toolCompleted done) :
    log.recordedOutput key = some done.output := by
  unfold recordedOutput
  rw [h]
  simp only [hp]

/-- What is recorded stays recorded when the log grows. -/
theorem recordedOutput_mono {log' : Log} (hp : log <+: log') {key : String} {v : Value}
    (h : log.recordedOutput key = some v) : log'.recordedOutput key = some v := by
  obtain ⟨rows, rfl⟩ := hp
  unfold recordedOutput at h
  split at h
  next row hrow =>
    have hfind : Log.findByIdempotencyKey (log ++ rows) .tool key = some row := by
      unfold findByIdempotencyKey at hrow ⊢
      rw [List.find?_append, hrow]
      rfl
    unfold recordedOutput
    rw [hfind]
    exact h
  next => cases h

/-- A keyed append only adds a row. -/
theorem le_appendKeyed (payload : Payload) (key : Option String) : log <+: log.appendKeyed payload key := by
  unfold appendKeyed appendEvent
  cases key with
  | none => exact List.prefix_append _ _
  | some k =>
      simp only
      split
      · exact List.prefix_refl _
      · exact List.prefix_append _ _

/-- A completion that finds its key free is what is recorded under it. -/
theorem recordedOutput_appendKeyed {key : String} {done : ToolCompletedPayload}
    (h : log.findByIdempotencyKey .tool key = none) :
    (log.appendKeyed (.toolCompleted done) (some key)).recordedOutput key = some done.output := by
  have hrows : log.appendKeyed (.toolCompleted done) (some key) =
      log ++ [{ payload := .toolCompleted done, idempotencyKey := some key }] := by
    simp only [appendKeyed]
    rw [show (Payload.toolCompleted done).eventType = .tool from rfl, h]
  have hfind : Log.findByIdempotencyKey (log ++ [{ payload := .toolCompleted done, idempotencyKey := some key }])
      .tool key = some { payload := .toolCompleted done, idempotencyKey := some key } := by
    unfold findByIdempotencyKey at h ⊢
    rw [List.find?_append, h]
    simp [Payload.eventType]
  rw [hrows]
  exact recordedOutput_of_find hfind rfl

end Log

/-- The call has ended with an unsuccessful output. -/
def CallPc.endedUnsuccessful : CallPc → Bool
  | .returned r => r.status = .completed && r.hasSemanticError
  | _ => false

/-- What is about to be recorded is what the call will return. -/
def CallPc.recordsOwn : CallPc → Prop
  | .recording output persisted _ => persisted = output
  | .noting .. => False
  | _ => True

namespace ToolExecutor
variable {W : Type} [Py] (x : ToolExecutor W)

/-! ### The condition -/

/-- The output is recorded as it is: there is no backend, it is small enough, or its blob cannot be
written. -/
def staysInline (c : Call W) (w : W) (output : Value) : Bool :=
  match c.backend with
  | none => true
  | some b => (serialize output).length ≤ x.outputInlineMaxChars ||
      !(b.write (blobPath x.digest output) (serialize output) w).1.isOk

/-- The output of a call with a key stays inline, a completion is recorded under a free key or under one
that holds the same output, and a lookup that finds its key follows no unsuccessful end with this key. -/
def answersKept (t : Traffic W) : Happening W → Bool
  | .act i => match t.flights[i]? with
    | none => true
    | some f => match x.key f.proc.call with
      | none => true
      | some k => match f.proc.pc with
        | .offloading output _ => x.staysInline f.proc.call t.shared.world output
        | .recording output _ _ => t.shared.log.findByIdempotencyKey .tool k = none ||
            t.shared.log.recordedOutput k = some output
        | .looking _ => t.shared.log.findByIdempotencyKey .tool k = none ||
            t.flights.all fun g => x.key g.proc.call ≠ some k || !g.proc.pc.endedUnsuccessful
        | _ => true
  | _ => true

/-! ### One step -/

/-- **The log of a run only grows at its end.** -/
theorem log_grows {t u : Traffic W} {e : Happening W} (hs : x.trafficStep t e = some u) :
    t.shared.log <+: u.shared.log := by
  cases e with
  | call c =>
      obtain rfl := Option.some.inj hs
      exact List.prefix_refl _
  | act i =>
      simp only [trafficStep] at hs
      split at hs
      · cases hs
      next f hf =>
        split_ifs at hs
        obtain rfl := Option.some.inj hs
        simp only
        rcases x.stepCall_log f.proc t.shared with heq | ⟨payload, _, heq⟩ | ⟨_, heq⟩ | ⟨_, _, _, _, heq⟩
        · rw [heq]
        · rw [heq]
          exact List.prefix_append _ _
        · rw [heq]
          exact Log.le_appendKeyed _ _
        · rw [heq]
          exact Log.le_appendKeyed _ _
  | answer cid b op =>
      obtain rfl := Option.some.inj hs
      simp only [Log.confirmRun]
      split
      · exact Log.le_appendKeyed _ _
      · exact List.prefix_refl _
  | note payload =>
      simp only [trafficStep] at hs
      split_ifs at hs
      obtain rfl := Option.some.inj hs
      exact List.prefix_append _ _
  | outside w =>
      obtain rfl := Option.some.inj hs
      exact List.prefix_refl _

theorem recordsOwn_afterInvoke (p : Proc W) (attempt : ℕ) (a : Answer) :
    (x.afterInvoke p attempt a).recordsOwn := by
  unfold afterInvoke afterOutput
  repeat' split
  all_goals trivial

/-- An action keeps the output that will be recorded, if a large one is not offloaded. -/
theorem recordsOwn_stepCall {p : Proc W} {s : Shared W} (h : p.pc.recordsOwn)
    (hin : ∀ output n, p.pc = .offloading output n → x.staysInline p.call s.world output = true) :
    (x.stepCall p s).1.pc.recordsOwn := by
  obtain ⟨c, tid, pc⟩ := p
  cases pc with
  | invoking attempt => exact x.recordsOwn_afterInvoke ⟨c, tid, .invoking attempt⟩ attempt _
  | noting output blob n => exact h.elim
  | offloading output n =>
      have hinline := hin output n rfl
      unfold staysInline at hinline
      simp only [stepCall, goto]
      split
      · rfl
      next b hb =>
        rw [hb] at hinline
        simp only at hinline
        split_ifs with hsmall
        · rfl
        · split
          · rfl
          next hw =>
            rw [hw] at hinline
            simp [hsmall, Except.isOk, Except.toBool] at hinline
  | looking confirm =>
      simp only [stepCall, goto, afterMiss]
      repeat' split
      all_goals trivial
  | _ =>
      simp only [stepCall, goto, emit, afterCalled]
      repeat' split
      all_goals trivial

/-- A hit returns what is recorded. -/
theorem recordedOutput_of_hit {p : Proc W} {s : Shared W} {r : CallResult} (hf : p.pc.finished = false)
    (h : (x.stepCall p s).1.pc = .returned r) (hr : r.status = .idempotencyHit) :
    p.pc.isLooking = true ∧ ∃ k, x.key p.call = some k ∧ s.log.recordedOutput k = some r.output := by
  obtain ⟨hlook, k, row, hk, hrow⟩ := x.looking_of_hit hf h hr
  obtain ⟨c, tid, pc⟩ := p
  cases pc with
  | looking confirm =>
      refine ⟨rfl, k, hk, ?_⟩
      simp only at hk
      simp only [stepCall, goto, hk, hrow] at h
      split at h
      next done hdone =>
        simp only [CallPc.returned.injEq] at h
        rw [Log.recordedOutput_of_find hrow hdone, ← h]
      next => cases h
  | _ => cases hlook

/-! ### The run -/

/-- Every success that a call with a key has returned is recorded as it was, and no call is about to
record anything else than what it will return. -/
structure Faithful (t : Traffic W) : Prop where
  returned : ∀ f ∈ t.flights, ∀ k r, x.key f.proc.call = some k → f.proc.pc = .returned r →
    r.status = .completed → r.hasSemanticError = false → t.shared.log.recordedOutput k = some r.output
  own : ∀ f ∈ t.flights, x.key f.proc.call ≠ none → f.proc.pc.recordsOwn

theorem Faithful.step {t u : Traffic W} {e : Happening W} (h : x.Faithful t)
    (hok : x.answersKept t e = true) (hs : x.trafficStep t e = some u) : x.Faithful u := by
  have hgrows := x.log_grows hs
  refine ⟨fun g hg k r hk hpc hstatus hse => ?_, fun g hg hk => ?_⟩
  · obtain ⟨j, hj⟩ := List.mem_iff_getElem?.mp hg
    rcases x.flight_trafficStep hs hj with hold | ⟨c, rfl⟩ | ⟨f, rfl, hf, hfin, rfl, hshared⟩
    · have hrec := h.returned g (List.mem_of_getElem? hold) k r hk hpc hstatus hse
      exact Log.recordedOutput_mono hgrows hrec
    · cases hpc
    · -- the call has just recorded its completion
      obtain ⟨output, persisted, n, hrecording⟩ := x.recording_of_returned hfin hpc ⟨hstatus, hse⟩
      have hkey : x.key f.proc.call = some k := by simpa using hk
      have hown := h.own f (List.mem_of_getElem? hf) (by rw [hkey]; exact Option.some_ne_none k)
      rw [hrecording] at hown
      have hown' : persisted = output := hown
      have hout : r.output = output := by
        simp only [stepCall, hrecording, CallPc.returned.injEq] at hpc
        rw [← hpc]
      simp only [answersKept, hf, hkey, hrecording, Bool.or_eq_true, decide_eq_true_eq] at hok
      rcases hok with hfree | hsame
      · have hlog : u.shared.log = t.shared.log.appendKeyed (completion f.proc persisted) (some k) := by
          rw [hshared]
          simp only [stepCall, hrecording, hkey, completion]
        rw [hlog, hout, ← hown']
        exact Log.recordedOutput_appendKeyed hfree
      · rw [hout]
        exact Log.recordedOutput_mono hgrows hsame
  · obtain ⟨j, hj⟩ := List.mem_iff_getElem?.mp hg
    rcases x.flight_trafficStep hs hj with hold | ⟨c, rfl⟩ | ⟨f, rfl, hf, hfin, rfl, hshared⟩
    · exact h.own g (List.mem_of_getElem? hold) hk
    · trivial
    · simp only [stepCall_call] at hk
      refine x.recordsOwn_stepCall (h.own f (List.mem_of_getElem? hf) hk) fun output n hpc => ?_
      obtain ⟨k, hkey⟩ := Option.ne_none_iff_exists'.mp hk
      simpa only [answersKept, hf, hkey, hpc] using hok

/-- **A hit answers as before**: the output that a call gets from the record in this step is the output
of every call with its key that has returned COMPLETED before, and a step input that refers to it is
resolved alike. -/
def AnswersAsBefore (t u : Traffic W) : Prop :=
  ∀ (i : ℕ) f f' r, t.flights[i]? = some f → f.proc.pc.finished = false → u.flights[i]? = some f' →
    f'.proc.pc = .returned r → r.status = .idempotencyHit →
    ∀ g ∈ t.flights, x.key g.proc.call = x.key f.proc.call →
      ∀ r', g.proc.pc = .returned r' → r'.status = .completed → r.output = r'.output ∧
        ∀ (upstream : Lib.Dict String Value) (sid : String) (input : Obj),
          resolveVariablesInInput (upstream.set sid r.output) input =
            resolveVariablesInInput (upstream.set sid r'.output) input

/-- **A cached answer is the original answer** at every step of every run in which no output of a call
with a key is offloaded, no completion is recorded over another one, and no lookup finds a key with
which a call has ended unsuccessful. -/
theorem cached_answer_is_original {w : W} {t u : Traffic W} {e : Happening W}
    (h : Lib.ReachesVia x.trafficStep (fun t e => x.answersKept t e = true) (idle w) t)
    (hok : x.answersKept t e = true) (hs : x.trafficStep t e = some u) : x.AnswersAsBefore t u := by
  have hinv : x.Faithful t := by
    refine h.invariant (I := fun t => x.Faithful t) ⟨?_, ?_⟩ fun t u e _ hok ht hs => ht.step x hok hs
    · intro f hf
      cases hf
    · intro f hf
      cases hf
  intro i f f' r hf hfin hf' hpc hhit g hg hkeys r' hr' hdone
  suffices hout : r.output = r'.output by
    refine ⟨hout, fun upstream sid input => ?_⟩
    rw [hout]
  rcases x.flight_trafficStep hs hf' with hold | ⟨c, rfl⟩ | ⟨f₀, rfl, hf₀, _, rfl, _⟩
  · rw [hf] at hold
    cases hold
    rw [hpc] at hfin
    cases hfin
  · cases hpc
  · rw [hf] at hf₀
    cases hf₀
    obtain ⟨hlook, k, hkey, hrec⟩ := x.recordedOutput_of_hit hfin hpc hhit
    have hgkey : x.key g.proc.call = some k := hkeys.trans hkey
    -- a lookup that finds its key follows no unsuccessful end
    have hse : r'.hasSemanticError = false := by
      obtain ⟨confirm, hlooking⟩ : ∃ confirm, f.proc.pc = .looking confirm := by
        cases hp : f.proc.pc <;> simp [hp, CallPc.isLooking] at hlook ⊢
      have hfound : t.shared.log.findByIdempotencyKey .tool k ≠ none := by
        intro hnone
        simp [Log.recordedOutput, hnone] at hrec
      simp only [answersKept, hf, hkey, hlooking, hfound, decide_false, Bool.false_or,
        List.all_eq_true] at hok
      have hgok := hok g hg
      simp only [hgkey, ne_eq, not_true_eq_false, decide_false, Bool.false_or, hr',
        CallPc.endedUnsuccessful, hdone, decide_true, Bool.true_and, Bool.not_eq_true'] at hgok
      exact hgok
    have hkept := hinv.returned g hg k r' hgkey hr' hdone hse
    rw [hrec] at hkept
    exact Option.some.inj hkept

end ToolExecutor
/-! ### A report that is too long -/

section scenario
attribute [local instance] asciiPy

/-- An executor that keeps outputs of up to forty characters in the record. -/
def shortRecords : ToolExecutor ℕ := { remoteExecutor with outputInlineMaxChars := 40 }

/-- A workspace in which every file can be written. -/
def anyWorkspace : ExecutionBackend ℕ where
  resolve path := .ok path
  read _ n := (.ok .null, n)
  write _ _ n := (.ok .null, n)
  append _ _ n := (.ok .null, n)
  delete _ n := (.ok .null, n)
  list _ n := (.ok .null, n)

/-- Ask a server for a report, in a run with a workspace. -/
def fetchReport (title toolCallId : String) : Call ℕ :=
  { toolName := "mcp_call"
    input := [("server_name", .str "archive"), ("tool_name", .str "report"), ("arguments", .obj [])]
    td := mcpCall
    toolFn := fun n => (.ok (.obj [("success", .bool true), ("title", .str title)]), n + 1)
    toolCallId, confirmationId := "c", backend := some anyWorkspace }

/-- The first call runs the tool function to its end, and the second one is at its lookup. -/
def reportTwice (title : String) (actions : ℕ) : List (Happening ℕ) :=
  .call (fetchReport title "t1") :: .call (fetchReport title "t2") ::
    (List.replicate actions (Happening.act 0) ++ [Happening.act 1])

/-- A test for a second call that is answered from the record with another output than the first. -/
def answersDifferently (x : ToolExecutor ℕ) (t : Traffic ℕ) : Bool :=
  match t.flights[0]?, t.flights[1]?, x.trafficStep t (.act 1) with
  | some g, some f, some u => match g.proc.pc, (u.flights[1]?).map fun f' => f'.proc.pc with
    | CallPc.returned r', some (CallPc.returned r) => !f.proc.pc.finished && r.status = .idempotencyHit &&
        x.key g.proc.call = x.key f.proc.call && r'.status = .completed && r.output ≠ r'.output
    | _, _ => false
  | _, _, _ => false

theorem not_answersAsBefore {x : ToolExecutor ℕ} {t : Traffic ℕ} (h : answersDifferently x t = true) :
    ∃ u, x.trafficStep t (.act 1) = some u ∧ ¬x.AnswersAsBefore t u := by
  unfold answersDifferently at h
  split at h
  next g f u hg hf hu =>
    split at h
    next r' r hr' hr =>
      simp only [Bool.and_eq_true, decide_eq_true_eq, Bool.not_eq_true'] at h
      obtain ⟨⟨⟨⟨hfin, hhit⟩, hkey⟩, hdone⟩, hne⟩ := h
      obtain ⟨f', hf', hpc⟩ := Option.map_eq_some_iff.mp hr
      refine ⟨u, hu, fun hall => hne ?_⟩
      exact (hall 1 f f' r hf hfin hf' hpc hhit g (List.mem_of_getElem? hg) hkey r' hr' hdone).1
    next => cases h
  next => cases h

/-- The first call returns the report, the second one the placeholder of its blob. -/
theorem long_report_answered_with_placeholder : ∃ t u,
    Lib.Reaches shortRecords.trafficStep (ToolExecutor.idle 0) t ∧
      shortRecords.trafficStep t (.act 1) = some u ∧ ¬shortRecords.AnswersAsBefore t u := by
  obtain ⟨t, ht, hp⟩ := Lib.exists_reaches_of_run shortRecords.trafficStep
    (reportTwice "Yearly report of the archive" 7) (ToolExecutor.idle 0) (answersDifferently shortRecords)
    (by decide +kernel)
  obtain ⟨u, hu, hnot⟩ := not_answersAsBefore hp
  exact ⟨t, u, ht, hu, hnot⟩

/-- A test for a second call that is answered from the record, under the condition. -/
def answersFromRecord (x : ToolExecutor ℕ) (t : Traffic ℕ) : Bool :=
  x.answersKept t (.act 1) && match x.trafficStep t (.act 1) with
    | some u => u.flights.any fun f => returnedWith .idempotencyHit f.proc.pc
    | none => false

/-- A short report is recorded as it is, and returned as it was. -/
theorem short_report_answered_alike : ∃ t u,
    Lib.ReachesVia shortRecords.trafficStep (fun t e => shortRecords.answersKept t e = true)
      (ToolExecutor.idle 0) t ∧ shortRecords.trafficStep t (.act 1) = some u ∧
      (∃ f ∈ u.flights, ∃ r, f.proc.pc = .returned r ∧ r.status = .idempotencyHit) ∧
      shortRecords.AnswersAsBefore t u := by
  obtain ⟨t, ht, hp⟩ := Lib.exists_reachesVia_of_run shortRecords.trafficStep shortRecords.answersKept
    (reportTwice "Index" 6) (ToolExecutor.idle 0) (answersFromRecord shortRecords) (by decide +kernel)
  unfold answersFromRecord at hp
  rw [Bool.and_eq_true] at hp
  obtain ⟨hok, hhit⟩ := hp
  split at hhit
  next u hu =>
    obtain ⟨f, hf, hret⟩ := List.any_eq_true.mp hhit
    exact ⟨t, u, ht, hu, ⟨f, hf, returnedWith_iff.mp hret⟩, shortRecords.cached_answer_is_original ht hok hu⟩
  next => cases hhit

end scenario
end JAgent
