import JAgent.Scheduler.Executed

/-! # Restarts and the rebuilt results

A run outlives its process: after a crash the memory of the scheduler is gone, the event log
is not.  `processStep` adds such restarts to the moves of the scheduler.  A restart gets a plan
from the planner and rebuilds the results of its steps from the evidence in the log.

Every finished result, remembered or rebuilt, is backed by a step that finished under the same
id (`ProcessInv`).  Whether that step had the same action as the one that is skipped because of
it is decided by who reuses ids: `reusesOwnAction` is the condition on revisions and resumed
plans under which a step is skipped only when its own action was done. -/

namespace JAgent

/-! ### Moves of a process -/

/-- A move of the scheduler, or a restart with a plan. -/
inductive Move where
  | inner (c : Choice)
  | restart (plan : DagPlan)

section process
variable [Py] (cfg : Config)

/-- The memory is lost; results are rebuilt from the evidence of the new plan's steps. -/
def State.restart (s : State) (plan : DagPlan) : State :=
  .start plan (resumeResults plan (foldEvidence s.log)) s.contracts s.log
    (s.hist ++ [Obs.adopt plan.steps])

/-- One move of a process. -/
def processStep (s : State) : Move → Option State
  | .inner c => step cfg s c
  | .restart plan => some (s.restart plan)

end process

/-! ### Finished results are backed by the history -/

/-- A state is not CANCELLED, and a finished one has a finished step behind it. -/
def Backed (hist : List Obs) (sid : String) (e : ExecState) : Prop :=
  e ≠ .cancelled ∧ (e = .completed ∨ e = .idempotent → DoneIn hist sid)

/-- The recorded states are backed. -/
def EvidenceOk (hist : List Obs) (evidence : Evidence) : Prop :=
  ∀ sid ev, evidence.get? sid = some ev → Backed hist sid ev.execState

/-- The remembered states are backed. -/
def ResultsOk (hist : List Obs) (results : Results) : Prop :=
  ∀ sid r, results.get? sid = some r → Backed hist sid r.execState

/-- An event that announces the end of a step announces a backed state. -/
def EventOk (hist : List Obs) (e : Event) : Prop :=
  ∀ planId sid summary status error callId,
    e = .stepCompleted planId sid summary status error callId → Backed hist sid status

section backed
variable {hist hist' : List Obs} {sid : String} {e : ExecState}

theorem Backed.mono (h : Backed hist sid e) (hsub : hist ⊆ hist') : Backed hist' sid e := by
  refine ⟨h.1, fun he => ?_⟩
  obtain ⟨step, r, hr, hf, hid⟩ := h.2 he
  exact ⟨step, r, hsub hr, hf, hid⟩

theorem backed_of_isOpen (h : e.isOpen) : Backed hist sid e := by
  rcases h with rfl | rfl | rfl | rfl <;> simp [Backed]

theorem EvidenceOk.kept {evidence : Evidence} (h : EvidenceOk hist evidence)
    (hk : KeptOrOpen evidence sid e) : Backed hist sid e := by
  rcases hk with ho | ⟨ev, hev, rfl⟩
  · exact backed_of_isOpen ho
  · exact h sid ev hev

theorem EvidenceOk.mono {evidence : Evidence} (h : EvidenceOk hist evidence)
    (hsub : hist ⊆ hist') : EvidenceOk hist' evidence :=
  fun sid ev hev => (h sid ev hev).mono hsub

theorem eventOk_of_harmless {es : List Event} (h : Harmless es) :
    ∀ e ∈ es, EventOk hist e :=
  fun e he planId sid summary status error callId heq =>
    absurd heq (h e he planId sid summary status error callId)

theorem mem_settle (hist : List Obs) (plan : DagPlan) (sid : String) (r : StepResult) :
    Obs.settle (stepOr plan sid) r ∈ hist ++ [Obs.settle (stepOr plan sid) r] :=
  List.mem_append_right _ List.mem_cons_self

/-- The event of a settled step is backed by the observation made with it. -/
theorem eventOk_settle {s : State} {k : Round} {raw : Raw} : ∀ e ∈
    (settle k.planId k.done.length (stepOr s.plan sid).tool sid raw).event.toList,
    EventOk (s.hist ++ [Obs.settle (stepOr s.plan sid)
      (settle k.planId k.done.length (stepOr s.plan sid).tool sid raw).result]) e := by
  rintro e he planId sid' summary status error callId rfl
  obtain ⟨rfl, hstatus, hkind⟩ := settle_event (Option.mem_toList.mp he)
  refine ⟨by rcases hkind with h | h | h <;> simp [h], fun hf => ?_⟩
  refine ⟨_, _, mem_settle _ _ _ _, ?_, stepOr_id _ _⟩
  unfold StepResult.finished
  rw [hstatus]
  simpa using hf

/-- **Backed events keep the evidence backed.** -/
theorem EvidenceOk.append [Py] : ∀ {es log : List Event}, EvidenceOk hist (foldEvidence log) →
    (∀ e ∈ es, EventOk hist e) → EvidenceOk hist (foldEvidence (log ++ es))
  | [], log, h, _ => by rwa [List.append_nil]
  | e :: es, log, h, hes => by
      rw [List.append_cons]
      refine EvidenceOk.append (fun sid ev hev => ?_) fun e' he' => hes e' (List.mem_cons_of_mem _ he')
      rw [foldEvidence_append] at hev
      rcases applyEvent_execState hev with hk | ⟨planId, summary, error, callId, he⟩
      · exact h.kept hk
      · exact hes e List.mem_cons_self _ _ _ _ _ _ he

end backed

section invariant
variable [Py] {cfg : Config} {s t : State} {c : Choice}

/-- What a move writes to the log announces only backed states. -/
theorem Trans.log_cases (ht : Trans cfg s c t) :
    ∃ es, t.log = s.log ++ es ∧ ∀ e ∈ es, EventOk t.hist e := by
  cases ht with
  | quiet _ _ hes | heal _ hes _ | foreign hes | enter _ _ _ hes | move _ _ hes | gateSkip _ _ hes
  | repair _ hes | accept _ _ hes _ | announce _ hes => exact ⟨_, rfl, eventOk_of_harmless hes⟩
  | settle _ => exact ⟨_, rfl, eventOk_settle⟩
  | @settleRetry _ _ _ sid cid todo retries raw hpc =>
      refine ⟨_, rfl, ?_⟩
      rintro e he planId sid' summary status error callId rfl
      rw [List.mem_singleton] at he
      split_ifs at he with hf
      cases he
      refine ⟨by simp, fun _ => ⟨_, raw, mem_settle _ _ _ _, hf, stepOr_id _ _⟩⟩
  | mergeAdopt _ => exact ⟨[], by simp [adopt, State.observe], by simp⟩
  | _ => exact ⟨[], by simp, by simp⟩

/-- What is remembered and what is recorded is backed by the history. -/
structure ProcessInv (cfg : Config) (s : State) : Prop where
  data : DataInv cfg s
  raw : RawInv s
  evidence : EvidenceOk s.hist (foldEvidence s.log)
  results : ResultsOk s.hist s.results

theorem ResultsOk.trans (h : ResultsOk s.hist s.results) (hraw : RawInv s) (ht : Trans cfg s c t) :
    ResultsOk t.hist t.results := by
  intro sid r hr
  rcases ht.result_cases hraw hr with ⟨r₀, ts, hr₀, rfl⟩ | hskip | hs
  · exact (h sid r₀ hr₀).mono ht.hist_subset
  · exact backed_of_isOpen (.inr (.inr (.inr hskip)))
  · refine ⟨hs.genuine.not_cancelled, fun hf => ⟨stepOr s.plan sid, r, ?_, ?_, stepOr_id _ _⟩⟩
    · rw [hs.hist]
      exact mem_settle _ _ _ _
    · simpa [StepResult.finished] using hf

theorem ProcessInv.trans (h : ProcessInv cfg s) (ht : Trans cfg s c t) : ProcessInv cfg t := by
  obtain ⟨es, hlog, hes⟩ := ht.log_cases
  refine ⟨h.data.trans ht, h.raw.trans ht, ?_, h.results.trans h.raw ht⟩
  rw [hlog]
  exact (h.evidence.mono ht.hist_subset).append hes

/-- Rebuilt results are as well backed as the evidence. -/
theorem ProcessInv.restart (h : ProcessInv cfg s) (plan : DagPlan) :
    ProcessInv cfg (s.restart plan) := by
  refine ⟨.start .., RawInv.start _ _ _ _ _, h.evidence.mono (List.subset_append_left _ _), fun sid r hr => ?_⟩
  rcases resumeResults_get? hr with hp | ⟨ev, hev, he⟩
  · exact backed_of_isOpen (.inl hp)
  · rw [he]
    exact (h.evidence sid ev hev).mono (List.subset_append_left _ _)

theorem ProcessInv.fresh (plan : DagPlan) (contracts : List DeliveryContract) :
    ProcessInv cfg (State.fresh plan contracts) := by
  refine ⟨.start .., RawInv.start _ _ _ _ _, ?_, ?_⟩
  · intro sid ev hev
    cases hev
  · intro sid r hr
    cases hr

/-- **Every run, with any restarts, keeps its finished results backed.** -/
theorem processInv_of_reaches {plan : DagPlan} {contracts : List DeliveryContract}
    (h : Lib.Reaches (processStep cfg) (State.fresh plan contracts) s) : ProcessInv cfg s := by
  apply h.invariant
  · exact .fresh plan contracts
  intro t u m _ hi hs
  cases m with
  | inner c => exact hi.trans (step_trans hs)
  | restart plan' =>
      cases hs
      exact hi.restart plan'

/-! ### Skipping a step because its own action was done -/

/-- The action that finished last under the id of the step is its own. -/
def ownAction (hist : List Obs) (step : DagStep) : Bool :=
  (lastDone hist step.id).any fun d => stepSignature d = stepSignature step

/-- Every listed step that will be skipped as done had its own action done. -/
def skipsOwn (hist : List Obs) (results : Results) (steps : List DagStep) : Bool :=
  steps.all fun p => !Results.holdsAt results StepResult.shouldNotRerun p.id || ownAction hist p

/-- A revision lists the id of a done step, and a resumed plan the id of a step with finished
evidence, only with the action that was done. -/
def reusesOwnAction (s : State) : Move → Bool
  | .inner _ => match s.pc with
    | .merging _ _ revised => revised.steps.all fun p =>
        s.canonicalWith revised p.id ≠ p.id || skipsOwn s.hist s.results [p]
    | _ => true
  | .restart plan => skipsOwn s.hist (resumeResults plan (foldEvidence s.log)) plan.steps

theorem skipsOwn_iff {hist : List Obs} {results : Results} {steps : List DagStep} :
    skipsOwn hist results steps = true ↔ ∀ p ∈ steps,
      Results.holdsAt results StepResult.shouldNotRerun p.id = true → ownAction hist p = true := by
  unfold skipsOwn
  simp only [List.all_eq_true, Bool.or_eq_true, Bool.not_eq_true']
  refine forall₂_congr fun p _ => ?_
  cases Results.holdsAt results StepResult.shouldNotRerun p.id <;> simp

/-- The plan, and a merged plan about to be adopted, skip only own actions. -/
structure OwnInv (s : State) : Prop where
  plan : skipsOwn s.hist s.results s.plan.steps = true
  announced : ∀ k merged, s.pc = .announcing k merged → skipsOwn s.hist s.results merged.steps = true

/-- Fewer done results skip fewer steps. -/
theorem skipsOwn_mono {hist : List Obs} {results results' : Results} {steps : List DagStep}
    (h : skipsOwn hist results steps = true)
    (hres : ∀ sid, Results.holdsAt results' StepResult.shouldNotRerun sid = true →
      Results.holdsAt results StepResult.shouldNotRerun sid = true) :
    skipsOwn hist results' steps = true := by
  rw [skipsOwn_iff] at h ⊢
  exact fun p hp hd => h p hp (hres p.id hd)

theorem ownAction_append {hist : List Obs} {o : Obs} (h : ∀ step r, o ≠ .settle step r) (p : DagStep) :
    ownAction (hist ++ [o]) p = ownAction hist p := by
  unfold ownAction
  rw [lastDone_append_of_ne h]

theorem skipsOwn_append {hist : List Obs} {results : Results} {steps : List DagStep} {o : Obs}
    (ho : ∀ step r, o ≠ .settle step r) (h : skipsOwn hist results steps = true) :
    skipsOwn (hist ++ [o]) results steps = true := by
  rw [skipsOwn_iff] at h ⊢
  intro p hp hd
  rw [ownAction_append ho]
  exact h p hp hd

/-- Settling the step the plan lists: it is done, if at all, by its own action. -/
theorem skipsOwn_settled {sid : String} {r : StepResult} (h : skipsOwn s.hist s.results s.plan.steps = true)
    (hn : (stepIds s.plan.steps).Nodup) (hr : r.execState ≠ .cancelled) :
    skipsOwn (s.hist ++ [Obs.settle (stepOr s.plan sid) r]) (s.results.set sid r) s.plan.steps = true := by
  rw [skipsOwn_iff] at h ⊢
  intro p hp hd
  unfold ownAction
  rw [lastDone_append_settle, stepOr_id]
  obtain ⟨r', hr', hdone⟩ := Results.holdsAt_iff.mp hd
  rcases Lib.Dict.get?_set_cases hr' with ⟨rfl, rfl⟩ | ⟨hne, hr'⟩
  · have hfin : r.finished = true := by
      unfold StepResult.shouldNotRerun at hdone
      unfold StepResult.finished
      simpa [hr] using hdone
    rw [if_pos ⟨hfin, rfl⟩, stepOr_of_mem hn hp]
    simp
  · rw [if_neg fun hc => hne hc.2]
    exact h p hp (Results.holdsAt_iff.mpr ⟨r', hr', hdone⟩)

/-- A merged plan skips only own actions when the revision does. -/
theorem skipsOwn_merged {site : Site} {k : Round} {revised : DagPlan} (h : ProcessInv cfg s)
    (hpc : s.pc = .merging site k revised) (hok : reusesOwnAction s (.inner c) = true) :
    skipsOwn s.hist (s.merge revised).results (s.merge revised).plan.steps = true := by
  have hn := h.data.root_nodup (by rw [hpc]; rfl)
  unfold reusesOwnAction at hok
  simp only [hpc, List.all_eq_true, Bool.or_eq_true, decide_eq_true_eq] at hok
  rw [skipsOwn_iff]
  intro p hp hd
  obtain ⟨hcan, hd'⟩ := holdsAt_cleared hd
  rcases (mem_mergedSteps hn).mp hp with hrev | ⟨r, _, _, _, hnormal, rfl⟩
  · have hrev := mem_of_mem_values_stepMap hrev
    have hcan' : s.canonicalWith revised p.id = p.id := by
      rw [← h.data.canonical_merge (by rw [hpc]; rfl)]
      exact hcan
    exact skipsOwn_iff.mp ((hok p hrev).resolve_left fun hc => hc hcan') p List.mem_cons_self hd'
  · -- a restored step has no normal result, and a done one is normal
    obtain ⟨res, hres, hdone⟩ := Results.holdsAt_iff.mp hd'
    rw [rewriteDeps_id] at hres
    have hnc := (h.results r.id res hres).1
    have : res.stepNormal = true := StepResult.stepNormal_of_finished (by
      unfold StepResult.shouldNotRerun at hdone
      unfold StepResult.finished
      simpa [hnc] using hdone)
    simp [normalAt, Results.holdsAt, hres, this] at hnormal

/-- **One move that reuses only own actions keeps the invariant.** -/
theorem OwnInv.trans (h : OwnInv s) (hp : ProcessInv cfg s)
    (hok : reusesOwnAction s (.inner c) = true) (ht : Trans cfg s c t) : OwnInv t := by
  cases ht with
  | quiet hplain _ _ =>
      refine ⟨h.plan, fun k merged hpc => ?_⟩
      simp only at hpc
      subst hpc
      cases hplain
  | foreign _ => exact ⟨h.plan, h.announced⟩
  | gateSkip hpc hskip _ =>
      refine ⟨skipsOwn_mono h.plan fun sid hd => ?_, by simp⟩
      obtain ⟨r, hr, hdone⟩ := Results.holdsAt_iff.mp hd
      rcases Lib.Dict.get?_set_cases hr with ⟨_, rfl⟩ | ⟨_, hr⟩
      · simp [StepResult.shouldNotRerun, hskip] at hdone
      · exact Results.holdsAt_iff.mpr ⟨r, hr, hdone⟩
  | call _ _ _ => exact ⟨skipsOwn_append (by simp) h.plan, by simp⟩
  | settle hpc =>
      exact ⟨skipsOwn_settled h.plan (hp.data.plan_nodup (by rw [hpc]; rfl))
        (Genuine.settle hp.raw hpc).not_cancelled, by simp⟩
  | settleRetry hpc =>
      exact ⟨skipsOwn_settled h.plan (hp.data.plan_nodup (by rw [hpc]; rfl))
        (Genuine.settleRetry hp.raw hpc).not_cancelled, by simp⟩
  | @repair _ _ step _ p _ _ hpc _ =>
      refine ⟨skipsOwn_append (by simp) (skipsOwn_iff.mpr fun q hq hd => ?_), by simp⟩
      obtain ⟨r, hr, hdone⟩ := Results.holdsAt_iff.mp hd
      rw [Lib.Dict.get?_pop] at hr
      split_ifs at hr with hne
      obtain ⟨q', hq', rfl⟩ := List.mem_map.mp hq
      rw [repairStep_id] at hne hr
      have hsame : repairStep step.id p q' = q' := by simp [repairStep, Ne.symm hne]
      rw [hsame]
      exact skipsOwn_iff.mp h.plan q' hq' (Results.holdsAt_iff.mpr ⟨r, hr, hdone⟩)
  | accept _ _ _ hpc' =>
      refine ⟨skipsOwn_mono h.plan fun sid hd => ?_, fun k merged hpc => ?_⟩
      · rwa [holdsAt_mergeStepTasks (fun _ _ => rfl)] at hd
      · simp only at hpc
        subst hpc
        rcases hpc' with hp | ⟨_, site, k', he⟩
        · cases hp
        · cases he
  | mergeFail _ => exact ⟨skipsOwn_mono h.plan fun sid hd => (holdsAt_cleared hd).2, by simp⟩
  | mergeAnnounce hpc =>
      refine ⟨skipsOwn_mono h.plan fun sid hd => (holdsAt_cleared hd).2, fun k merged he => ?_⟩
      rw [← (Pc.announcing.inj he).2]
      exact skipsOwn_merged hp hpc hok
  | mergeAdopt hpc => exact ⟨skipsOwn_append (by simp) (skipsOwn_merged hp hpc hok), by simp [adopt]⟩
  | announce hpc _ => exact ⟨skipsOwn_append (by simp) (h.announced _ _ hpc), by simp [adopt]⟩
  | _ => exact ⟨h.plan, by simp⟩

/-- At an entry of the layer loop, a step is left out as done only when its own action was the
one that finished under its id. -/
def SkipsOnlyOwnActions (s : State) : Prop :=
  s.pc = .entry → ∀ p ∈ s.plan.steps, p.id ∈ Results.idsWith s.results StepResult.shouldNotRerun →
    ∃ d, lastDone s.hist p.id = some d ∧ stepSignature d = stepSignature p

/-- **Steps are skipped for their own action.**  In every run, fresh or resumed, whose revisions
and resumed plans list the id of a done step only with the action that was done, each step that
an entry leaves out as done had its own action done. -/
theorem skipped_step_had_own_action_done (plan : DagPlan) (contracts : List DeliveryContract)
    {s : State} (h : Lib.ReachesVia (processStep cfg) (fun s m => reusesOwnAction s m = true)
      (State.fresh plan contracts) s) : SkipsOnlyOwnActions s := by
  have hinv : ProcessInv cfg s ∧ OwnInv s := by
    apply h.invariant
    · refine ⟨.fresh plan contracts, ?_, by simp [State.fresh, State.start]⟩
      simp [skipsOwn, State.fresh, State.start, Results.holdsAt]
    rintro t u m _ hok ⟨hp, ho⟩ hs
    cases m with
    | inner c => exact ⟨hp.trans (step_trans hs), ho.trans hp hok (step_trans hs)⟩
    | restart plan' =>
        cases hs
        exact ⟨hp.restart plan', skipsOwn_append (by simp) hok, by simp [State.restart, State.start]⟩
  intro _ p hp hd
  have hown := skipsOwn_iff.mp hinv.2.plan p hp (Results.mem_idsWith.mp hd)
  unfold ownAction at hown
  obtain ⟨d, hd, hsig⟩ := Option.any_eq_true _ _ |>.mp hown
  exact ⟨d, hd, by simpa using hsig⟩

/-- A test for a step that is about to be skipped for another action. -/
def skipsForeign (s : State) : Bool :=
  (match s.pc with
    | .entry => true
    | _ => false) && !skipsOwn s.hist s.results s.plan.steps

theorem not_skipsOnlyOwnActions (h : skipsForeign s = true) : ¬SkipsOnlyOwnActions s := by
  intro hskips
  unfold skipsForeign at h
  rw [Bool.and_eq_true, Bool.not_eq_true'] at h
  have hpc : s.pc = .entry := by
    have h1 := h.1
    split at h1
    next he => exact he
    next => cases h1
  have hown : skipsOwn s.hist s.results s.plan.steps = true := by
    rw [skipsOwn_iff]
    intro p hp hd
    obtain ⟨d, hd', hsig⟩ := hskips hpc p hp (Results.mem_idsWith.mpr hd)
    simp [ownAction, hd', hsig]
  rw [hown] at h
  cases h.2

end invariant

/-! ### Reused ids -/

section scenario
attribute [local instance] asciiPy

/-- Read one file. -/
def readPlan (path : String) : DagPlan := { steps := [fileStep "read" "read" path []] }

/-- The first file is read, the process is restarted, and the new plan reads another file. -/
def resumeScript (path : String) : List Move :=
  List.map .inner (.enter "p" :: playLayer 1 [("read", answered (.obj [("success", .bool true)]))]) ++
    [Move.restart (readPlan path)]

/-- A revision that reads another file under the id of the read that succeeded. -/
def readElsewhere : DagPlan :=
  { steps := [fileStep "read" "read" "other.txt" [], writeStep "save" "b.txt" "$read.content" ["read"]] }

/-- The copy fails after a successful read, and the revision reuses the id of the read. -/
def reuseScript : List Move :=
  List.map .inner (Choice.enter "p" :: playLayer 1 [("read", answered (.obj [("content", .str "hi")]))] ++
    playLayer 1 [("copy", refused "disk full")] ++ [Choice.revise (some readElsewhere), .tick, .tick])

/-- Both a resumed plan and a revision can have a step skipped for an action that is not its
own. -/
theorem other_action_skipped_as_done :
    (∃ s, Lib.Reaches (processStep fileConfig) (State.fresh (readPlan "a.txt") []) s ∧
      ¬SkipsOnlyOwnActions s) ∧
    ∃ s, Lib.Reaches (processStep fileConfig) (State.fresh copyPlan []) s ∧ ¬SkipsOnlyOwnActions s := by
  constructor
  · obtain ⟨s, hs, hp⟩ := Lib.exists_reaches_of_run (processStep fileConfig) (resumeScript "b.txt")
      (State.fresh (readPlan "a.txt") []) skipsForeign (by decide +kernel)
    exact ⟨s, hs, not_skipsOnlyOwnActions hp⟩
  · obtain ⟨s, hs, hp⟩ := Lib.exists_reaches_of_run (processStep fileConfig) reuseScript
      (State.fresh copyPlan []) skipsForeign (by decide +kernel)
    exact ⟨s, hs, not_skipsOnlyOwnActions hp⟩

/-- Resuming with the same plan skips the step that was done. -/
theorem same_action_skipped_as_done : ∃ s,
    Lib.ReachesVia (processStep fileConfig) (fun s m => reusesOwnAction s m = true)
      (State.fresh (readPlan "a.txt") []) s ∧
    (Results.idsWith s.results StepResult.shouldNotRerun = ["read"]) ∧ SkipsOnlyOwnActions s := by
  obtain ⟨s, hs, hp⟩ := Lib.exists_reachesVia_of_run (processStep fileConfig) reusesOwnAction
    (resumeScript "a.txt") (State.fresh (readPlan "a.txt") [])
    (fun s => Results.idsWith s.results StepResult.shouldNotRerun = ["read"]) (by decide +kernel)
  exact ⟨s, hs, by simpa using hp, skipped_step_had_own_action_done (readPlan "a.txt") [] hs⟩

end scenario
end JAgent
