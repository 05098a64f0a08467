import JAgent.Scheduler.Moves

/-! # What one move can do

`Trans` lists everything a move of the scheduler can change, with the guard that enabled it;
`step_trans` shows that the moves do nothing else.  Moves that only advance the
control point and write events are gathered in `quiet`, moves inside a layer that touch no
result in `PhaseMove`.  Every invariant of a run is proved by cases on `Trans`. -/

namespace JAgent

/-- Control points without obligations of their own. -/
def Pc.plain : Pc → Bool
  | .entry | .layers _ | .inLayer .. | .repairing .. | .merging .. | .announcing .. => false
  | _ => true

/-- The first plan has passed the entry and the run is still going. -/
def Pc.inRound : Pc → Bool
  | .entry | .failing _ | .finishing | .finished _ | .raised _ => false
  | _ => true

/-- In a round, and no merged plan is waiting to be adopted. -/
def Pc.working : Pc → Bool
  | .announcing .. => false
  | pc => pc.inRound

theorem Pc.inRound_of_working {pc : Pc} (h : pc.working = true) : pc.inRound = true := by
  cases pc <;> first | rfl | exact h

/-- No event of the list announces the end of a step. -/
def Harmless (es : List Event) : Prop :=
  ∀ e ∈ es, ∀ planId sid summary status error callId,
    e ≠ .stepCompleted planId sid summary status error callId

/-- A result that did not come from the Tool Layer. -/
def Refused (r : StepResult) : Prop := r.execState = .failed ∨ r.execState = .skipped

theorem not_refused_of_stepNormal {r : StepResult} (h : r.stepNormal = true) : ¬Refused r := by
  unfold StepResult.stepNormal execStateIsNormal at h
  rintro (hf | hf) <;> simp [hf] at h

section
variable [Py]

/-- Moves inside a layer that change neither results nor history. -/
inductive PhaseMove (layer : List String) : Phase → Phase → Prop
  | gatePass (sid : String) (todo toSkip : List String) :
      PhaseMove layer (.gating (sid :: todo) toSkip) (.gating todo toSkip)
  | gateDone (toSkip : List String) :
      PhaseMove layer (.gating [] toSkip) (.starting layer toSkip)
  | start (sid : String) (todo toSkip : List String) :
      PhaseMove layer (.starting (sid :: todo) toSkip) (.starting todo toSkip)
  | startDone (toSkip : List String) :
      PhaseMove layer (.starting [] toSkip)
        (.executing (layer.filter fun sid => !toSkip.contains sid) .empty)
  | refuse {toRun : List String} {flights : Lib.Dict String Flight} {sid : String} {r : StepResult} :
      sid ∈ toRun → Refused r →
      PhaseMove layer (.executing toRun flights)
        (.executing toRun (flights.set sid (.returned (.ok r))))
  | ret {toRun : List String} {flights : Lib.Dict String Flight} {sid : String} {step : DagStep}
      (r : ToolExecutionResult) : flights.get? sid = some (.running step) →
      PhaseMove layer (.executing toRun flights)
        (.executing toRun (flights.set sid (.returned (.ok (dispatch step r)))))
  | retError {toRun : List String} {flights : Lib.Dict String Flight} {sid : String} {step : DagStep}
      (msg : String) : flights.get? sid = some (.running step) →
      PhaseMove layer (.executing toRun flights)
        (.executing toRun (flights.set sid (.returned (.error msg))))
  | gather {toRun : List String} {flights : Lib.Dict String Flight} {todo : List (String × Raw)} :
      todo.map Prod.fst = toRun →
      (∀ sid raw, (sid, raw) ∈ todo → flights.get? sid = some (.returned raw)) →
      PhaseMove layer (.executing toRun flights) (.settling todo [] false)
  | suspend (pending : List (String × String)) (failed : Bool) :
      PhaseMove layer (.settling [] pending failed) (.confirming pending 0)
  | pause (todo : List (String × String)) (retries : ℕ) :
      PhaseMove layer (.confirming todo retries) (.paused todo retries)
  | retryRefuse (todo : List (String × String)) (retries : ℕ) {r : StepResult} : Refused r →
      PhaseMove layer (.paused todo retries) (.retried todo retries r)
  | retryRet (todo : List (String × String)) (retries : ℕ) (step : DagStep) (r : ToolExecutionResult) :
      PhaseMove layer (.retrying todo retries step) (.retried todo retries (dispatch step r))
  | again (todo : List (String × String)) (retries : ℕ) (raw : StepResult) :
      PhaseMove layer (.retried todo retries raw) (.confirming todo (retries + 1))

/-- Moves inside a layer that call the Tool Layer for the step `sid`. -/
inductive CallMove (sid : String) (step : DagStep) : Phase → Phase → Prop
  | first {toRun : List String} {flights : Lib.Dict String Flight} : sid ∈ toRun →
      CallMove sid step (.executing toRun flights) (.executing toRun (flights.set sid (.running step)))
  | retry (cid : String) (todo : List (String × String)) (retries : ℕ) :
      CallMove sid step (.paused ((sid, cid) :: todo) retries) (.retrying ((sid, cid) :: todo) retries step)

/-- The layer is over: nothing is left to settle or to confirm. -/
inductive LayerOver : Phase → Prop
  | settled (failed : Bool) : LayerOver (.settling [] [] failed)
  | confirmed (retries : ℕ) : LayerOver (.confirming [] retries)

variable (cfg : Config)

/-- Everything a move can do. -/
inductive Trans : State → Choice → State → Prop
  | quiet {s : State} {c : Choice} {es : List Event} {rounds : Lib.Dict String ℕ} {pc : Pc} :
      pc.plain = true → (pc.inRound = true → s.pc.working = true) → Harmless es →
      Trans s c { s with log := s.log ++ es, repairRounds := rounds, pc := pc }
  | heal {s : State} {c : Choice} {es : List Event} {rounds : Lib.Dict String ℕ} {site : Site} {k : Round}
      {candidates : List DagStep} : s.pc.working = true → Harmless es →
      (∀ c ∈ candidates, c ∈ localRepairCandidates s.plan s.results s.contracts ∨
        ∃ cs, s.pc = .repairing site k cs ∧ c ∈ cs) →
      Trans s c { s with log := s.log ++ es, repairRounds := rounds, pc := .repairing site k candidates }
  | foreign {s : State} {c : Choice} {e : Event} : Harmless [e] → Trans s c { s with log := s.log ++ [e] }
  | enter {s : State} {c : Choice} {es : List Event} {planId : String} {layers : List (List String)} : s.pc = .entry →
      validate cfg.registry s.plan [] [] = [] →
      topologicalSort s.plan (Results.idsWith s.results StepResult.shouldNotRerun)
        (Results.idsWith s.results StepResult.outputAvailable) = .ok layers → Harmless es →
      Trans s c { s with
        log := s.log ++ es
        pc := .layers ⟨planId, Results.idsWith s.results StepResult.shouldNotRerun, [], layers,
          layers.length⟩ }
  | nextLayer {s : State} {c : Choice} {k : Round} {layer : List String} {rest : List (List String)} :
      s.pc = .layers k → k.rest = layer :: rest →
      Trans s c { s with pc := .inLayer { k with rest := rest } layer (.gating layer []) }
  | move {s : State} {c : Choice} {k : Round} {layer : List String} {ph ph' : Phase} {es : List Event} :
      s.pc = .inLayer k layer ph → PhaseMove layer ph ph' → Harmless es →
      Trans s c { s with log := s.log ++ es, pc := .inLayer k layer ph' }
  | gateSkip {s : State} {c : Choice} {k : Round} {layer : List String} {sid : String} {todo toSkip : List String}
      {r : StepResult} {es : List Event} : s.pc = .inLayer k layer (.gating (sid :: todo) toSkip) →
      r.execState = .skipped → Harmless es →
      Trans s c { s with
        log := s.log ++ es
        results := s.results.set sid r
        pc := .inLayer k layer (.gating todo (toSkip ++ [sid])) }
  | call {s : State} {c : Choice} {k : Round} {layer : List String} {ph ph' : Phase} {sid : String} {step : DagStep}
      {input : Obj} : s.pc = .inLayer k layer ph → CallMove sid step ph ph' →
      prepareStep cfg.registry s.plan s.results sid = .call step input →
      Trans s c { s with
        hist := s.hist ++ [Obs.call step input s.results]
        pc := .inLayer k layer ph' }
  | settle {s : State} {c : Choice} {k : Round} {layer : List String} {sid : String} {raw : Raw}
      {todo : List (String × Raw)} {pending : List (String × String)} {failed : Bool} :
      s.pc = .inLayer k layer (.settling ((sid, raw) :: todo) pending failed) →
      Trans s c { settleState s k sid raw with
        pc := .inLayer k layer (.settling todo
          (match (settle k.planId k.done.length (stepOr s.plan sid).tool sid raw).pending with
            | some cid => pending ++ [(sid, cid)]
            | none => pending)
          (failed || (settle k.planId k.done.length (stepOr s.plan sid).tool sid raw).failed)) }
  | settleRetry {s : State} {c : Choice} {k : Round} {layer : List String} {sid cid : String}
      {todo : List (String × String)} {retries : ℕ} {raw : StepResult} :
      s.pc = .inLayer k layer (.retried ((sid, cid) :: todo) retries raw) →
      Trans s c { settleRetry s k sid raw with pc := .inLayer k layer (.confirming todo 0) }
  | layerDone {s : State} {c : Choice} {k : Round} {layer : List String} {ph : Phase} :
      s.pc = .inLayer k layer ph → LayerOver ph →
      Trans s c { s with pc := .layers { k with done := k.done ++ [layer] } }
  | repair {s : State} {site : Site} {k : Round} {step : DagStep} {rest : List DagStep}
      {p : LocalRepairProposal} {es : List Event} {rounds : Lib.Dict String ℕ} :
      s.pc = .repairing site k (step :: rest) → Harmless es →
      Trans s (.propose (some p)) { s with
        log := s.log ++ es
        hist := s.hist ++ [.repair (repairStep step.id p step)]
        repairRounds := rounds
        plan := repairPlan s.plan step.id p
        results := s.results.pop step.id
        selfHealCount := s.selfHealCount + 1
        pc := .entry }
  | accept {s : State} {c : Choice} {revised : DagPlan} {es : List Event} {pc : Pc} : s.pc.working = true →
      plannerAccepts cfg s revised = true → Harmless es →
      pc.plain = true ∨ (revised.steps ≠ [] ∧ ∃ site k, pc = .merging site k revised) →
      Trans s c { s with
        log := s.log ++ es
        results := mergeStepTasks s.results revised
        pc := pc }
  | mergeFail {s : State} {c : Choice} {site : Site} {k : Round} {revised : DagPlan} {error : String} :
      s.pc = .merging site k revised →
      Trans s c { s with
        results := (s.merge revised).results
        aliases := (s.merge revised).aliases
        pc := .failing error }
  | mergeAnnounce {s : State} {c : Choice} {site : Site} {k : Round} {revised : DagPlan} :
      s.pc = .merging site k revised →
      Trans s c { s with
        results := (s.merge revised).results
        aliases := (s.merge revised).aliases
        pc := .announcing k (s.merge revised).plan }
  | mergeAdopt {s : State} {c : Choice} {site : Site} {k : Round} {revised : DagPlan} :
      s.pc = .merging site k revised →
      Trans s c (adopt { s with
        results := (s.merge revised).results
        aliases := (s.merge revised).aliases } (s.merge revised).plan)
  | announce {s : State} {c : Choice} {k : Round} {merged : DagPlan} {es : List Event} : s.pc = .announcing k merged →
      Harmless es → Trans s c (adopt (s.emit es) merged)

end

theorem harmless_nil : Harmless [] := by simp [Harmless]

theorem harmless_foreign {e : Event} (h : isForeign e = true) : Harmless [e] := by
  intro e' he' planId sid summary status error callId
  rw [List.mem_singleton] at he'
  rintro rfl
  rw [← he'] at h
  cases h

theorem plain_ne {pc : Pc} (h : pc.plain = true) :
    (∀ site k cs, pc ≠ .repairing site k cs) ∧ ∀ site k revised, pc ≠ .merging site k revised := by
  constructor <;> (intros; rintro rfl; simp [Pc.plain] at h)

/-! ### The step function does nothing else -/

section soundness
variable [Py] {cfg : Config} {s t : State} {c : Choice}

theorem quiet_pc {pc : Pc} (h : pc.plain = true) (hin : pc.inRound = true → s.pc.working = true) :
    Trans cfg s c { s with pc := pc } := by
  have h0 : Trans cfg s c { s with log := s.log ++ [], repairRounds := s.repairRounds, pc := pc } :=
    .quiet h hin harmless_nil
  simpa using h0

/-- A move to an end of the run. -/
theorem stop_pc {pc : Pc} (h : pc.plain = true) (hin : pc.inRound = false) :
    Trans cfg s c { s with pc := pc } := quiet_pc h (by simp [hin])

theorem stop_emit {es : List Event} {pc : Pc} (h : pc.plain = true) (hin : pc.inRound = false)
    (hes : Harmless es) : Trans cfg s c { s.emit es with pc := pc } :=
  Trans.quiet h (by simp [hin]) hes

theorem move_pc {k : Round} {layer : List String} {ph ph' : Phase} (hpc : s.pc = .inLayer k layer ph)
    (h : PhaseMove layer ph ph') : Trans cfg s c { s with pc := .inLayer k layer ph' } := by
  have h0 : Trans cfg s c { s with log := s.log ++ [], pc := .inLayer k layer ph' } :=
    .move hpc h harmless_nil
  simpa using h0

theorem EntryMove.trans (hpc : s.pc = .entry) (h : EntryMove cfg s c t) : Trans cfg s c t := by
  cases h with
  | exhausted planId hb => exact stop_pc rfl rfl
  | unsorted planId he => exact stop_pc rfl rfl
  | start planId _ hv hl => exact Trans.enter hpc hv hl (by simp [Harmless])
  | invalid planId he => exact stop_emit rfl rfl (by simp [Harmless])

theorem heal_pc {site : Site} {k : Round} {candidates : List DagStep} (hin : s.pc.working = true)
    (h : ∀ c ∈ candidates, c ∈ localRepairCandidates s.plan s.results s.contracts ∨
      ∃ cs, s.pc = .repairing site k cs ∧ c ∈ cs) :
    Trans cfg s c { s with pc := .repairing site k candidates } := by
  have h0 : Trans cfg s c { s with
      log := s.log ++ []
      repairRounds := s.repairRounds
      pc := .repairing site k candidates } := .heal hin harmless_nil h
  simpa using h0

theorem healPc_trans (site : Site) (k : Round) (hin : s.pc.working = true) :
    Trans cfg s c { s with pc := healPc cfg s site k } := by
  unfold healPc
  split_ifs
  · exact heal_pc hin fun c hc => .inl hc
  · exact quiet_pc rfl fun _ => hin

theorem finishLayers_trans (k : Round) (hin : s.pc.working = true) :
    Trans cfg s c { s with pc := finishLayers cfg s k } := by
  unfold finishLayers
  simp only
  split_ifs
  · exact healPc_trans _ _ hin
  · exact quiet_pc rfl fun _ => hin

theorem LayersMove.trans {k : Round} (hpc : s.pc = .layers k) (h : LayersMove cfg s k c t) :
    Trans cfg s c t := by
  cases h with
  | finish hr => exact finishLayers_trans k (by rw [hpc]; rfl)
  | next hr => exact Trans.nextLayer hpc hr
  | cancel hr => exact stop_pc rfl rfl

theorem afterLayer_trans {k : Round} {layer : List String} {ph : Phase} {ok : Bool}
    (hpc : s.pc = .inLayer k layer ph) (hover : LayerOver ph) :
    Trans cfg s c { s with pc := afterLayer cfg s k layer ok } := by
  unfold afterLayer
  split_ifs
  · exact Trans.layerDone hpc hover
  · exact healPc_trans _ _ (by rw [hpc]; rfl)

/-- Launching a step either calls the Tool Layer or moves on without it. -/
theorem launch_trans {k : Round} {layer : List String} {ph : Phase} {sid : String}
    {onCall : DagStep → Phase} {onReturn : StepResult → Phase} (hpc : s.pc = .inLayer k layer ph)
    (hcall : ∀ step, CallMove sid step ph (onCall step))
    (hret : ∀ r, Refused r → PhaseMove layer ph (onReturn r)) :
    Trans cfg s c (launch cfg s sid (fun step => .inLayer k layer (onCall step))
      (fun r => .inLayer k layer (onReturn r))) := by
  unfold launch
  split
  next r hr => exact move_pc hpc (hret r (prepareStep_returned hr))
  next step input hc => exact Trans.call hpc (hcall step) hc

theorem PhaseStep.trans {k : Round} {layer : List String} {ph : Phase}
    (hpc : s.pc = .inLayer k layer ph) (h : PhaseStep cfg s k layer ph c t) : Trans cfg s c t := by
  cases h with
  | gateDone toSkip => exact move_pc hpc (.gateDone toSkip)
  | gatePass todo toSkip _ => exact move_pc hpc (.gatePass _ todo toSkip)
  | gateSkip todo toSkip _ _ => exact Trans.gateSkip hpc rfl (by simp [Harmless])
  | startDone toSkip => exact move_pc hpc (.startDone toSkip)
  | startPass todo _ => exact move_pc hpc (.start _ todo _)
  | start todo _ _ => exact Trans.move hpc (.start _ todo _) (by simp [Harmless])
  | call hrun _ => exact launch_trans hpc (fun step => .first hrun) (fun r hr => .refuse hrun hr)
  | ret r hf => exact move_pc hpc (.ret r hf)
  | retError msg hf => exact move_pc hpc (.retError msg hf)
  | gather hids hraw => exact move_pc hpc (.gather hids hraw)
  | settled failed => exact afterLayer_trans hpc (.settled failed)
  | suspend failed _ => exact move_pc hpc (.suspend _ failed)
  | settle sid raw todo pending failed => exact Trans.settle hpc
  | confirmed retries => exact afterLayer_trans hpc (.confirmed retries)
  | pause sid cid todo _ => exact Trans.move hpc (.pause _ _) (by simp [Harmless])
  | resume sid cid todo retries =>
      exact launch_trans hpc (fun step => .retry cid todo retries) (fun r hr => .retryRefuse _ retries hr)
  | retryRet todo retries step r => exact move_pc hpc (.retryRet todo retries step r)
  | again sid cid todo retries _ => exact move_pc hpc (.again _ retries _)
  | settleRetry sid cid todo retries _ => exact Trans.settleRetry hpc
  | giveUp | cancelConfirming | cancelPaused | timeout | retryError => exact stop_pc rfl rfl

theorem repairRejected_trans {site : Site} {k : Round} {step : DagStep} {rest : List DagStep}
    {used : ℕ} {outcome : RepairOutcome} {proposed reason : String}
    (hpc : s.pc = .repairing site k (step :: rest)) :
    Trans cfg s c (repairRejected cfg s site k step rest used outcome proposed reason) :=
  Trans.heal (by rw [hpc]; rfl) (by simp [Harmless, repairStarted, repairCompleted])
    fun c hc => .inr ⟨_, hpc, List.mem_cons_of_mem _ hc⟩

theorem RepairMove.trans {site : Site} {k : Round} {candidates : List DagStep}
    (hpc : s.pc = .repairing site k candidates) (h : RepairMove cfg s site k candidates c t) :
    Trans cfg s c t := by
  have hin : s.pc.working = true := by rw [hpc]; rfl
  cases h with
  | none => exact quiet_pc rfl fun _ => hin
  | spent rest _ => exact heal_pc hin fun c hc => .inr ⟨_, hpc, List.mem_cons_of_mem _ hc⟩
  | reject step rest c outcome proposed reason _ => exact repairRejected_trans hpc
  | accept rest _ => exact Trans.repair hpc (by simp [Harmless, repairStarted, repairCompleted])

theorem settleEmptyRevised_trans {site : Site} {k : Round} {revised : DagPlan}
    (hin : s.pc.working = true) (hacc : plannerAccepts cfg s revised = true) :
    Trans cfg s c (settleEmptyRevised { s with results := mergeStepTasks s.results revised }
      site k revised) := by
  unfold settleEmptyRevised
  by_cases hf : revised.failed = true
  · rw [if_pos hf]
    exact Trans.accept hin hacc (by simp [Harmless, planRevisedEvent]) (.inl rfl)
  · rw [if_neg hf]
    exact Trans.accept hin hacc (by simp [Harmless, planRevisedEvent]) (.inl rfl)

theorem accept_pc {site : Site} {k : Round} {revised : DagPlan} (hin : s.pc.working = true)
    (hacc : plannerAccepts cfg s revised = true) (hne : revised.steps ≠ []) :
    Trans cfg s c { s with
      results := mergeStepTasks s.results revised
      pc := .merging site k revised } := by
  have h0 : Trans cfg s c { s with
      log := s.log ++ []
      results := mergeStepTasks s.results revised
      pc := .merging site k revised } := .accept hin hacc harmless_nil (.inr ⟨hne, site, k, rfl⟩)
  simpa using h0

theorem ReviseMove.trans {site : Site} {k : Round} {attempt : ℕ} (hpc : s.pc = .revising site k attempt)
    (h : ReviseMove cfg s site k attempt c t) : Trans cfg s c t := by
  have hin : s.pc.working = true := by rw [hpc]; rfl
  cases h with
  | noneAfterFailure _ => exact quiet_pc rfl fun _ => hin
  | noneAfterLayers _ => exact quiet_pc rfl fun _ => hin
  | empty hacc _ => exact settleEmptyRevised_trans hin hacc
  | mergeAfterFailure _ hacc _ _ hne => exact accept_pc hin hacc hne
  | mergeAfterLayers _ hacc _ _ hne =>
      exact Trans.accept hin hacc (by simp [Harmless, planRevisedEvent]) (.inr ⟨hne, site, k, rfl⟩)
  | retry revised _ => exact quiet_pc rfl fun _ => hin
  | giveUp revised error _ => exact quiet_pc rfl fun _ => hin

theorem MergeMove.trans {site : Site} {k : Round} {revised : DagPlan}
    (hpc : s.pc = .merging site k revised) (h : MergeMove cfg s site k revised t) : Trans cfg s c t := by
  cases h with
  | announce _ _ => exact Trans.mergeAnnounce hpc
  | adopt _ _ => exact Trans.mergeAdopt hpc
  | reject error => exact Trans.mergeFail hpc

theorem DisposeMove.trans {k : Round} (h : DisposeMove s k t) : Trans cfg s c t := by
  cases h with
  | fail achieved error => exact stop_emit rfl rfl (by simp [Harmless])
  | complete achieved summary => exact stop_emit rfl rfl (by simp [Harmless])

/-- **Every move of the scheduler is one of `Trans`.** -/
theorem step_trans (h : step cfg s c = some t) : Trans cfg s c t := by
  cases move_of_step h with
  | foreign hf _ => exact Trans.foreign (harmless_foreign hf)
  | entry hpc hm => exact hm.trans hpc
  | layers hpc hm => exact hm.trans hpc
  | phase hpc hm => exact hm.trans hpc
  | repair hpc hm => exact hm.trans hpc
  | revise hpc hm => exact hm.trans hpc
  | merge hpc hm => exact hm.trans hpc
  | announce hpc => exact Trans.announce hpc (by simp [Harmless, planRevisedEvent])
  | dispose _ hm => exact hm.trans
  | fail _ => exact stop_emit rfl rfl (by simp [Harmless])
  | finish _ => exact stop_emit rfl rfl (by simp [Harmless])

end soundness
end JAgent
