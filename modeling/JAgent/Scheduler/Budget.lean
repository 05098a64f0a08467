import JAgent.Core.Status
import JAgent.Scheduler.Trans

/-! # Self-healing ends

Every way back to the head of the loop (an accepted repair, a merged revision after a failed layer or
after all layers) raises the counter of attempts, and the head starts a round only below the budget: a
call of `_execute_plan` starts at most as many rounds as the budget allows.  Every other way out of the
loop ends in `_fail` or `_complete`, so when the call returns, the last event of the log ends the run
(`self_healing_ends`).

`StandsFor` says which payloads an event of the scheduler's log stands for; an event of another component,
the operator's pause and resume among them, stands for any payload that does not end the run. -/

namespace JAgent

/-- The event that a round of the layer loop starts with. -/
def Event.opensRound : Event → Bool
  | .planCreated .. => true
  | _ => false

/-- How often the layer loop has been started. -/
def roundsStarted (log : List Event) : ℕ := log.countP Event.opensRound

/-- The event is the end of the run. -/
def Event.endsRun : Event → Bool
  | .runCompleted _ | .runFailed _ => true
  | _ => false

/-- The payload is one that the event stands for. -/
def StandsFor : Event → Payload → Prop
  | .runPaused reason, p => p = .runPaused reason
  | .runCompleted allNormal, p => ∃ q : RunCompletedPayload, p = .runCompleted q ∧ q.allNormal = allNormal
  | .runFailed error, p => ∃ q : RunFailedPayload, p = .runFailed q ∧ q.finalError = error
  | .other _, p => p.isTerminal = false
  | _, p => statusChange p = none

theorem isTerminal_statusAfter_of_standsFor {e : Event} {p : Payload} (h : StandsFor e p)
    (he : e.endsRun = true) (st : RunStatus) : (statusAfter st p).isTerminal = true := by
  cases e with
  | runCompleted allNormal =>
      obtain ⟨q, rfl, -⟩ := h
      rfl
  | runFailed error =>
      obtain ⟨q, rfl, -⟩ := h
      rfl
  | _ => cases he

theorem exists_last_of_standsFor {e : Event} : ∀ {log : List Event} {payloads : List Payload},
    List.Forall₂ StandsFor (log ++ [e]) payloads → ∃ front p, payloads = front ++ [p] ∧ StandsFor e p
  | [], payloads, h => by
      obtain ⟨p, rest, hp, hrest, rfl⟩ := List.forall₂_cons_left_iff.mp h
      rw [List.forall₂_nil_left_iff.mp hrest]
      exact ⟨[], p, rfl, hp⟩
  | _ :: log, payloads, h => by
      obtain ⟨p', rest, _, hrest, rfl⟩ := List.forall₂_cons_left_iff.mp h
      obtain ⟨front, p, rfl, hp⟩ := exists_last_of_standsFor hrest
      exact ⟨p' :: front, p, rfl, hp⟩

/-- A log that ends with the end of the run folds to a status that ends it. -/
theorem status_of_ended {runId : String} [Py] {log : List Event} {e : Event} {payloads : List Payload}
    {st : RunState} (he : e.endsRun = true) (hrec : List.Forall₂ StandsFor (log ++ [e]) payloads)
    (hfold : foldLog runId payloads = .ok st) : st.status = .completed ∨ st.status = .failed := by
  obtain ⟨front, p, rfl, hp⟩ := exists_last_of_standsFor hrec
  have hterm := isTerminal_statusAfter_of_standsFor hp he (statusOf front)
  rw [← statusOf_append, ← foldLog_status hfold] at hterm
  revert hterm
  cases st.status <;> decide

/-! ### One move -/

section moves
variable {s t : State} {es : List Event}

/-- The call has returned. -/
def Pc.isFinished : Pc → Bool
  | .finished _ => true
  | _ => false

theorem going {pc : Pc} (h : pc.isFinished = false) (ok : Bool) : pc ≠ .finished ok := by
  rintro rfl
  cases h

/-- A move inside a round: it starts none, and the call does not return. -/
structure Onward (s t : State) : Prop where
  rounds : roundsStarted t.log = roundsStarted s.log
  going : ∀ ok, t.pc ≠ .finished ok

theorem Onward.emit (hlog : t.log = s.log ++ es) (hes : ∀ e ∈ es, e.opensRound = false)
    (hpc : ∀ ok, t.pc ≠ .finished ok) : Onward s t := by
  refine ⟨?_, hpc⟩
  have hzero : es.countP Event.opensRound = 0 := by
    rw [List.countP_eq_zero]
    intro e he
    simp [hes e he]
  unfold roundsStarted
  rw [hlog, List.countP_append, hzero, Nat.add_zero]

theorem Onward.still (hlog : t.log = s.log) (hpc : ∀ ok, t.pc ≠ .finished ok) : Onward s t :=
  ⟨by rw [hlog], hpc⟩

/-- One event is written. -/
theorem Onward.write {e : Event} (hlog : t.log = s.log ++ [e]) (he : e.opensRound = false)
    (hpc : ∀ ok, t.pc ≠ .finished ok) : Onward s t := by
  refine .emit hlog ?_ hpc
  intro e' he'
  rw [List.mem_singleton.mp he']
  exact he

theorem opensRound_settle {planId : String} {layerIdx : ℕ} {toolName sid : String} {raw : Raw} {e : Event}
    (h : (settle planId layerIdx toolName sid raw).event = some e) : e.opensRound = false := by
  unfold settle at h
  split at h
  · cases h
    rfl
  · split at h
    · cases h
      rfl
    · cases h
      rfl
    · cases h
      rfl
    · split at h
      · cases h
      · split_ifs at h
        · cases h
          rfl
        · cases h
          rfl

theorem Onward.settleState {k : Round} {sid : String} {raw : Raw} {pc : Pc}
    (hpc : ∀ ok, pc ≠ .finished ok) : Onward s { JAgent.settleState s k sid raw with pc := pc } := by
  refine .emit rfl ?_ hpc
  intro e he
  exact opensRound_settle (Option.mem_toList.mp he)

theorem Onward.settleRetry {k : Round} {sid : String} {raw : StepResult} {pc : Pc}
    (hpc : ∀ ok, pc ≠ .finished ok) : Onward s { JAgent.settleRetry s k sid raw with pc := pc } := by
  refine .write rfl ?_ hpc
  split_ifs <;> rfl

variable [Py] {cfg : Config} {c : Choice} {k : Round} {layer : List String} {site : Site}

theorem healPc_going (ok : Bool) : healPc cfg s site k ≠ .finished ok := by
  unfold healPc
  split_ifs <;> exact going rfl ok

theorem afterLayer_going (b ok : Bool) : afterLayer cfg s k layer b ≠ .finished ok := by
  unfold afterLayer
  split_ifs
  · exact going rfl ok
  · exact healPc_going ok

theorem Onward.launch {sid : String} {onCall : DagStep → Pc} {onReturn : StepResult → Pc}
    (hcall : ∀ step ok, onCall step ≠ .finished ok) (hreturn : ∀ r ok, onReturn r ≠ .finished ok) :
    Onward s (launch cfg s sid onCall onReturn) := by
  unfold JAgent.launch
  split
  · exact .still rfl (hreturn _)
  · exact .still rfl (hcall _)

theorem finishLayers_going (ok : Bool) : finishLayers cfg s k ≠ .finished ok := by
  unfold finishLayers
  simp only
  split_ifs
  · exact healPc_going ok
  · exact going rfl ok

theorem LayersMove.onward (h : LayersMove cfg s k c t) : Onward s t := by
  cases h with
  | finish _ => exact .still rfl finishLayers_going
  | next _ => exact .still rfl (going rfl)
  | cancel _ => exact .still rfl (going rfl)

theorem PhaseStep.onward {ph : Phase} (h : PhaseStep cfg s k layer ph c t) : Onward s t := by
  cases h with
  | gateSkip | start | pause => exact .write rfl rfl (going rfl)
  | call | resume => exact .launch (fun _ => going rfl) (fun _ => going rfl)
  | settled | confirmed => exact .still rfl (afterLayer_going _)
  | settle => exact .settleState (going rfl)
  | settleRetry => exact .settleRetry (going rfl)
  | _ => exact .still rfl (going rfl)

theorem RepairMove.onward {candidates : List DagStep} (h : RepairMove cfg s site k candidates c t) :
    Onward s t := by
  cases h with
  | none => exact .still rfl (going rfl)
  | spent rest _ => exact .still rfl (going rfl)
  | reject | accept =>
      exact .emit rfl (by simp [repairStarted, repairCompleted, Event.opensRound]) (going rfl)

theorem onward_settleEmptyRevised (revised : DagPlan) :
    Onward s (settleEmptyRevised { s with results := mergeStepTasks s.results revised } site k revised) := by
  unfold settleEmptyRevised
  by_cases hfailed : revised.failed = true
  · rw [if_pos hfailed]
    exact .write rfl rfl (going rfl)
  · rw [if_neg hfailed]
    exact .write rfl rfl (going rfl)

theorem ReviseMove.onward {attempt : ℕ} (h : ReviseMove cfg s site k attempt c t) : Onward s t := by
  cases h with
  | @empty revised _ _ => exact onward_settleEmptyRevised revised
  | mergeAfterLayers => exact .write rfl rfl (going rfl)
  | _ => exact .still rfl (going rfl)

theorem MergeMove.onward {revised : DagPlan} (h : MergeMove cfg s site k revised t) : Onward s t := by
  cases h with
  | announce _ _ => exact .still rfl (going rfl)
  | adopt _ _ => exact .still rfl (going rfl)
  | reject error => exact .still rfl (going rfl)

omit [Py] in
theorem DisposeMove.onward (h : DisposeMove s k t) : Onward s t := by
  cases h with
  | fail achieved error => exact .write rfl rfl (going rfl)
  | complete achieved summary => exact .write rfl rfl (going rfl)

/-- The head of the loop starts a round only below the budget. -/
theorem EntryMove.rounds (h : EntryMove cfg s c t) :
    (t.pc.inRound = false ∧ t.pc ≠ .entry ∧ Onward s t) ∨ (s.selfHealCount < cfg.runAttemptBudget ∧
      t.selfHealCount = s.selfHealCount ∧ (∃ k, t.pc = .layers k) ∧
      roundsStarted t.log = roundsStarted s.log + 1) := by
  cases h with
  | exhausted planId _ => exact .inl ⟨rfl, by simp, .still rfl (going rfl)⟩
  | unsorted planId _ => exact .inl ⟨rfl, by simp, .still rfl (going rfl)⟩
  | start planId hbudget _ _ =>
      refine .inr ⟨hbudget, rfl, ⟨_, rfl⟩, ?_⟩
      simp [roundsStarted, State.emit, Event.opensRound]
  | invalid planId _ => exact .inl ⟨rfl, by simp, .write rfl rfl (going rfl)⟩

/-- A move from behind the head of the loop starts no round, and returns only by writing the end of the
run. -/
theorem rounds_of_step (hs : step cfg s c = some t) (hentry : s.pc ≠ .entry) :
    roundsStarted t.log = roundsStarted s.log ∧
      ∀ ok, t.pc = .finished ok → ∃ e : Event, e.endsRun = true ∧ t.log = s.log ++ [e] := by
  have honward : Onward s t → roundsStarted t.log = roundsStarted s.log ∧
      ∀ ok, t.pc = .finished ok → ∃ e : Event, e.endsRun = true ∧ t.log = s.log ++ [e] := by
    intro h
    exact ⟨h.rounds, fun ok hok => absurd hok (h.going ok)⟩
  have hend : ∀ e : Event, e.endsRun = true → t.log = s.log ++ [e] →
      roundsStarted t.log = roundsStarted s.log ∧
        ∀ ok, t.pc = .finished ok → ∃ e : Event, e.endsRun = true ∧ t.log = s.log ++ [e] := by
    intro e he hlog
    refine ⟨?_, fun ok _ => ⟨e, he, hlog⟩⟩
    have hopens : e.opensRound = false := by
      cases e <;> first | rfl | cases he
    unfold roundsStarted
    rw [hlog, List.countP_append, List.countP_singleton, hopens]
    rfl
  cases move_of_step hs with
  | @foreign e hforeign hterminal =>
      refine honward (.write rfl ?_ ?_)
      · cases e <;> first | rfl | cases hforeign
      · intro ok hpc
        rw [show s.pc = .finished ok from hpc] at hterminal
        cases hterminal
  | entry hpc _ => exact absurd hpc hentry
  | layers _ hm => exact honward hm.onward
  | phase _ hm => exact honward hm.onward
  | repair _ hm => exact honward hm.onward
  | revise _ hm => exact honward hm.onward
  | merge _ hm => exact honward hm.onward
  | announce _ => exact honward (.write rfl rfl (going rfl))
  | dispose _ hm => exact honward hm.onward
  | fail _ => exact hend (.runFailed _) rfl rfl
  | finish _ => exact hend (.runCompleted true) rfl rfl

/-- A move goes back to the head of the loop with one more attempt, or stays behind it. -/
theorem Trans.attempts (ht : Trans cfg s c t) (hentry : s.pc ≠ .entry) :
    (t.pc = .entry ∧ t.selfHealCount = s.selfHealCount + 1 ∧ s.pc.inRound = true) ∨
      (t.pc ≠ .entry ∧ t.selfHealCount = s.selfHealCount ∧ (t.pc.inRound = true → s.pc.inRound = true)) := by
  cases ht with
  | quiet hplain hin hes =>
      refine .inr ⟨?_, rfl, fun h => Pc.inRound_of_working (hin h)⟩
      rintro rfl
      cases hplain
  | heal hin hes hc => exact .inr ⟨by simp, rfl, fun _ => Pc.inRound_of_working hin⟩
  | foreign he => exact .inr ⟨hentry, rfl, id⟩
  | enter hpc hvalid hsort hes => exact absurd hpc hentry
  | nextLayer hpc hrest => exact .inr ⟨by simp, rfl, fun _ => by rw [hpc]; rfl⟩
  | move hpc hm hes => exact .inr ⟨by simp, rfl, fun _ => by rw [hpc]; rfl⟩
  | gateSkip hpc hr hes => exact .inr ⟨by simp, rfl, fun _ => by rw [hpc]; rfl⟩
  | call hpc hc hprep => exact .inr ⟨by simp, rfl, fun _ => by rw [hpc]; rfl⟩
  | settle hpc => exact .inr ⟨by simp, rfl, fun _ => by rw [hpc]; rfl⟩
  | settleRetry hpc => exact .inr ⟨by simp, rfl, fun _ => by rw [hpc]; rfl⟩
  | layerDone hpc hover => exact .inr ⟨by simp, rfl, fun _ => by rw [hpc]; rfl⟩
  | repair hpc hes => exact .inl ⟨rfl, rfl, by rw [hpc]; rfl⟩
  | accept hin hacc hes hpc' =>
      refine .inr ⟨?_, rfl, fun _ => Pc.inRound_of_working hin⟩
      rcases hpc' with hplain | ⟨-, site, k, rfl⟩
      · rintro rfl
        cases hplain
      · simp
  | mergeFail hpc => exact .inr ⟨by simp, rfl, fun _ => by rw [hpc]; rfl⟩
  | mergeAnnounce hpc => exact .inr ⟨by simp, rfl, fun _ => by rw [hpc]; rfl⟩
  | mergeAdopt hpc => exact .inl ⟨rfl, rfl, by rw [hpc]; rfl⟩
  | announce hpc hes => exact .inl ⟨rfl, rfl, by rw [hpc]; rfl⟩

end moves

/-! ### Whole runs -/

section runs
variable {cfg : Config} {s t : State} {c : Choice} {base : ℕ}

/-- The rounds so far, over the `base` of the log the call found: at the head of the loop one for each
attempt, behind it one more. -/
structure WithinBudget (cfg : Config) (base : ℕ) (s : State) : Prop where
  total : roundsStarted s.log ≤ base + cfg.runAttemptBudget
  atEntry : s.pc = .entry →
    roundsStarted s.log ≤ base + s.selfHealCount ∧ s.selfHealCount ≤ cfg.runAttemptBudget
  inRound : s.pc.inRound = true →
    roundsStarted s.log ≤ base + s.selfHealCount + 1 ∧ s.selfHealCount < cfg.runAttemptBudget

/-- A call that has returned has written the end of the run last. -/
def EndsLog (s : State) : Prop :=
  ∀ ok, s.pc = .finished ok → ∃ (log : List Event) (e : Event), s.log = log ++ [e] ∧ e.endsRun = true

theorem WithinBudget.start (plan : DagPlan) (results : Results) (contracts : List DeliveryContract)
    (log : List Event) (hist : List Obs) :
    WithinBudget cfg (roundsStarted log) (State.start plan results contracts log hist) := by
  refine ⟨Nat.le_add_right _ _, fun _ => ⟨Nat.le_refl _, Nat.zero_le _⟩, ?_⟩
  intro h
  cases h

variable [Py]

theorem WithinBudget.step_entry (h : WithinBudget cfg base s) (hpc : s.pc = .entry)
    (hs : EntryMove cfg s c t) : WithinBudget cfg base t ∧ EndsLog t := by
  obtain ⟨hrounds, hcount⟩ := h.atEntry hpc
  rcases hs.rounds with ⟨hout, hentry, honward⟩ | ⟨hlt, hsame, ⟨k, hk⟩, hone⟩
  · refine ⟨⟨?_, ?_, ?_⟩, fun ok hok => absurd hok (honward.going ok)⟩
    · rw [honward.rounds]
      omega
    · intro hpc'
      exact absurd hpc' hentry
    · intro hin
      rw [hout] at hin
      cases hin
  · refine ⟨⟨?_, ?_, ?_⟩, ?_⟩
    · rw [hone]
      omega
    · intro hentry
      rw [hk] at hentry
      cases hentry
    · intro _
      rw [hone, hsame]
      omega
    · intro ok hok
      rw [hk] at hok
      cases hok

theorem WithinBudget.step_behind (h : WithinBudget cfg base s) (hpc : s.pc ≠ .entry)
    (hs : step cfg s c = some t) : WithinBudget cfg base t ∧ EndsLog t := by
  obtain ⟨hrounds, hend⟩ := rounds_of_step hs hpc
  refine ⟨⟨?_, ?_, ?_⟩, ?_⟩
  · rw [hrounds]
    exact h.total
  · intro hentry
    rcases (step_trans hs).attempts hpc with ⟨-, hmore, hin⟩ | ⟨hne, -, -⟩
    · have hbound := h.inRound hin
      rw [hrounds, hmore]
      omega
    · exact absurd hentry hne
  · intro hin
    rcases (step_trans hs).attempts hpc with ⟨hentry, -, -⟩ | ⟨-, hsame, hback⟩
    · rw [hentry] at hin
      cases hin
    · rw [hrounds, hsame]
      exact h.inRound (hback hin)
  · intro ok hok
    obtain ⟨e, he, hlog⟩ := hend ok hok
    exact ⟨s.log, e, hlog, he⟩

omit [Py] in
/-- An event of another component at the head of the loop. -/
theorem WithinBudget.foreign {e : Event} (h : WithinBudget cfg base s) (he : isForeign e = true)
    (hpc : s.pc = .entry) : WithinBudget cfg base (s.emit [e]) ∧ EndsLog (s.emit [e]) := by
  have hopens : e.opensRound = false := by
    cases e <;> first | rfl | cases he
  have hrounds : roundsStarted (s.emit [e]).log = roundsStarted s.log := by
    simp [roundsStarted, State.emit, hopens]
  refine ⟨⟨?_, ?_, ?_⟩, ?_⟩
  · rw [hrounds]
    exact h.total
  · rw [hrounds]
    exact h.atEntry
  · rw [hrounds]
    exact h.inRound
  · intro ok hok
    rw [show s.pc = .finished ok from hok] at hpc
    cases hpc

theorem WithinBudget.step (h : WithinBudget cfg base s) (hs : step cfg s c = some t) :
    WithinBudget cfg base t ∧ EndsLog t := by
  by_cases hpc : s.pc = .entry
  · rcases entry_cases hs hpc with ⟨e, hforeign, rfl⟩ | hm
    · exact h.foreign hforeign hpc
    · exact h.step_entry hpc hm
  · exact h.step_behind hpc hs

/-- **Self-healing ends**: from every plan, results and log, with every behaviour of the planner, the
Tool Layer and the operator, a call of `_execute_plan` starts at most `run_attempt_budget` rounds of the
layer loop, and when it has returned, the status of the folded log is COMPLETED or FAILED. -/
theorem self_healing_ends (plan : DagPlan) (results : Results) (contracts : List DeliveryContract)
    (log : List Event) {s : State}
    (h : Lib.Reaches (step cfg) (State.start plan results contracts log []) s) :
    roundsStarted s.log ≤ roundsStarted log + cfg.runAttemptBudget ∧
      ∀ ok, s.pc = .finished ok → ∀ runId payloads st, List.Forall₂ StandsFor s.log payloads →
        foldLog runId payloads = .ok st → st.status = .completed ∨ st.status = .failed := by
  have hinv : WithinBudget cfg (roundsStarted log) s ∧ EndsLog s := by
    apply h.invariant
    · refine ⟨.start .., ?_⟩
      intro ok h
      cases h
    · intro t u c _ hi hs
      exact hi.1.step hs
  refine ⟨hinv.1.total, ?_⟩
  intro ok hok runId payloads st hrec hfold
  obtain ⟨pre, e, hlog, he⟩ := hinv.2 ok hok
  rw [hlog] at hrec
  exact status_of_ended he hrec hfold

end runs

section reading
attribute [local instance] asciiPy

def failingPlan : DagPlan := { steps := [fileStep "read" "read" "a.txt" []] }

/-- The read fails, and the planner has no revision. -/
def failingScript : List Choice :=
  Choice.enter "p" :: playLayer 1 [("read", refused "no such file")] ++ [Choice.revise none, .tick]

/-- The events that are written. -/
def failingEvents : List Event :=
  [.other "run_started",
    .planCreated "p" "" "1 steps in 1 layers" 1 (planStepsToPayload failingPlan),
    .stepStarted "p" "read" "file_op" [],
    .stepFailed "p" "read" "no such file" false "file_op" (some "call"),
    .runFailed "Steps failed: read: no such file"]

/-- Their payloads. -/
def failingPayloads : List Payload :=
  [.runStarted { intent := "read a.txt" },
    .planCreated "p" "" "1 steps in 1 layers" 1
      [[("step_id", .str "read"), ("tool_name", .str "file_op"),
        ("input", .obj [("operation", .str "read"), ("path", .str "a.txt")]), ("depends_on", .arr []),
        ("description", .str ""), ("probe", .bool false)]],
    .stepStarted "p" "read" "file_op" [],
    .stepFailed "p" "read" "no such file" false "file_op" (some "call"),
    .runFailed { finalError := "Steps failed: read: no such file", eventCount := 4 }]

theorem failed_read_ends : ∃ s, Lib.Reaches (step fileConfig)
      (State.start failingPlan .empty [] [.other "run_started"] []) s ∧ s.log = failingEvents ∧
    roundsStarted s.log ≤ 5 ∧ ∃ st, foldLog "r" failingPayloads = .ok st ∧
      (st.status = .completed ∨ st.status = .failed) := by
  obtain ⟨s, hs, hp⟩ := Lib.exists_reaches_of_run (step fileConfig) failingScript
    (State.start failingPlan .empty [] [.other "run_started"] []) (fun s => s.log = failingEvents &&
      match s.pc with
      | .finished _ => true
      | _ => false) (by decide +kernel)
  simp only [Bool.and_eq_true, decide_eq_true_eq] at hp
  obtain ⟨hlog, hpc⟩ := hp
  obtain ⟨hrounds, hend⟩ := self_healing_ends failingPlan .empty [] [.other "run_started"] hs
  have hfold : (foldLog "r" failingPayloads).toOption.isSome = true := by decide +kernel
  split at hpc
  · rename_i ok hpc'
    cases hst : foldLog "r" failingPayloads with
    | error e =>
        rw [hst] at hfold
        cases hfold
    | ok st =>
        refine ⟨s, hs, hlog, hrounds, st, rfl, hend ok hpc' "r" failingPayloads st ?_ hst⟩
        rw [hlog]
        refine .cons rfl (.cons rfl (.cons rfl (.cons rfl (.cons ?_ .nil))))
        exact ⟨_, rfl, rfl⟩
  · cases hpc

end reading
end JAgent
