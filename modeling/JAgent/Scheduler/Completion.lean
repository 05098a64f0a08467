import JAgent.Scheduler.Executed

/-! # What a passed completion gate says about execution

The gate judges the actions of the root plan but reads their results through the aliases, and
the step behind an alias is whatever the planner listed there.  A passed gate therefore means
that a declared operation or a contract was executed exactly as long as every step that stands
in for a root step satisfies what the root step satisfies.  `GreenInv` carries this through
every revision, merge and repair; `faithful` is the condition on the moves that supply steps. -/

namespace JAgent

section delivery
variable [Py]

/-- The operations the gate looks for. -/
def requirements (root : DagPlan) (contracts : List DeliveryContract) : List RequiredOperation :=
  root.declaredOperations ++ contracts.map DeliveryContract.toRequiredOperation

/-- `p` satisfies every required operation that `r` satisfies. -/
def covers (reqs : List RequiredOperation) (p r : DagStep) : Bool :=
  reqs.all fun q => !RequiredOperation.stepSatisfies r q || RequiredOperation.stepSatisfies p q

/-- Each of the steps covers every root step it is canonical for. -/
def standsIn (root : DagPlan) (contracts : List DeliveryContract) (canon : String → String)
    (steps : List DagStep) : Bool :=
  root.steps.all fun r => steps.all fun p =>
    canon r.id ≠ p.id || covers (requirements root contracts) p r

/-- The steps that a merge or an accepted repair supplies stand in for their root steps, and so
do the steps already executed under an id the merge binds. -/
def faithful (s : State) (c : Choice) : Bool :=
  match s.pc, c with
  | .merging _ _ revised, _ =>
    standsIn s.root s.contracts (s.canonicalWith revised) (revised.steps ++ normalSteps s.hist)
  | .repairing _ _ (step :: _), .propose (some p) =>
    standsIn s.root s.contracts (canonical s.aliases) [repairStep step.id p step]
  | _, _ => true

/-- A passed gate means that what it judges was executed. -/
def NoFakeGreen (s : State) : Prop :=
  let verdict := completionGate s.root s.results s.aliases s.contracts
  verdict.passes = true →
    (∀ req ∈ s.root.declaredOperations, ∃ step,
      RequiredOperation.stepSatisfies step req = true ∧ ExecutedNormally s.hist step) ∧
    (verdict.deliverableStatus = .met → ∀ c ∈ s.contracts, ∃ step,
      RequiredOperation.stepSatisfies step c.toRequiredOperation = true ∧ ExecutedNormally s.hist step)

/-! ### Standing in -/

section standing
variable {cfg : Config} {s t : State} {c : Choice} {reqs : List RequiredOperation}
  {root : DagPlan} {contracts : List DeliveryContract}

theorem covers_iff {p r : DagStep} : covers reqs p r = true ↔
    ∀ q ∈ reqs, RequiredOperation.stepSatisfies r q = true →
      RequiredOperation.stepSatisfies p q = true := by
  unfold covers
  simp only [List.all_eq_true, Bool.or_eq_true, Bool.not_eq_true']
  refine forall₂_congr fun q _ => ?_
  cases RequiredOperation.stepSatisfies r q <;> simp

/-- A step covers one with the same action. -/
theorem covers_of_same {p r : DagStep} (htool : p.tool = r.tool) (hinput : p.input = r.input) :
    covers reqs p r = true := by
  rw [covers_iff]
  intro q _ hr
  rw [← hr]
  exact RequiredOperation.stepSatisfies_congr htool hinput q

theorem standsIn_iff {canon : String → String} {steps : List DagStep} :
    standsIn root contracts canon steps = true ↔ ∀ r ∈ root.steps, ∀ p ∈ steps,
      canon r.id = p.id → covers (requirements root contracts) p r = true := by
  unfold standsIn
  simp only [List.all_eq_true, Bool.or_eq_true, decide_eq_true_eq]
  refine forall₂_congr fun r _ => forall₂_congr fun p _ => ?_
  by_cases h : canon r.id = p.id <;> simp [h]

/-! ### The invariant -/

/-- Whatever stands under the canonical id of a root step covers it. -/
structure GreenInv (s : State) : Prop where
  plan : (stepIds s.root.steps).Nodup → standsIn s.root s.contracts (canonical s.aliases) s.plan.steps = true
  announced : ∀ k merged, s.pc = .announcing k merged →
    standsIn s.root s.contracts (canonical s.aliases) merged.steps = true
  hist : standsIn s.root s.contracts (canonical s.aliases) (normalSteps s.hist) = true
  results : ∀ sid, normalAt s.results sid = true → ∃ step ∈ normalSteps s.hist, step.id = sid

theorem GreenInv.fresh (plan : DagPlan) (contracts : List DeliveryContract) :
    GreenInv (State.fresh plan contracts) := by
  refine ⟨fun hn => ?_, by simp [State.fresh, State.start], ?_, ?_⟩
  · rw [standsIn_iff]
    intro r hr p hp hid
    have hid' : canonical (identityAliases plan) r.id = p.id := hid
    rw [canonical_identityAliases] at hid'
    obtain rfl := List.inj_on_of_nodup_map hn hr hp hid'
    exact covers_of_same rfl rfl
  · simp [standsIn, normalSteps, State.fresh, State.start]
  · intro sid h
    simp [State.fresh, State.start, normalAt, Results.holdsAt] at h

/-- The merged plan stands in for the root steps when the revision does. -/
theorem standsIn_merged {site : Site} {k : Round} {revised : DagPlan} (hd : DataInv cfg s)
    (hpc : s.pc = .merging site k revised)
    (h : standsIn s.root s.contracts (canonical (s.merge revised).aliases) revised.steps = true) :
    standsIn s.root s.contracts (canonical (s.merge revised).aliases) (s.merge revised).plan.steps = true := by
  have hn := hd.root_nodup (by rw [hpc]; rfl)
  rw [standsIn_iff] at h ⊢
  intro r hroot p hp hid
  rcases (mem_mergedSteps hn).mp hp with hrev | ⟨r', hroot', _, _, _, rfl⟩
  · exact h r hroot p (mem_of_mem_values_stepMap hrev) hid
  · rw [rewriteDeps_id] at hid
    have hmem : canonical (s.merge revised).aliases r.id ∈ stepIds s.root.steps := by
      rw [hid]
      exact List.mem_map_of_mem hroot'
    have hself := (hd.aliases_merge revised).eq_of_root hmem
    obtain rfl := List.inj_on_of_nodup_map hn hroot hroot' (hself.symm.trans hid)
    exact covers_of_same rfl rfl

/-- The current plan keeps standing in: a replacement is never one of its steps. -/
theorem standsIn_current (revised : DagPlan) (h : standsIn s.root s.contracts (canonical s.aliases) s.plan.steps = true) :
    standsIn s.root s.contracts (canonical (s.merge revised).aliases) s.plan.steps = true := by
  rw [standsIn_iff] at h ⊢
  intro r hroot p hp hid
  rcases (s.merge_spec revised).canonical r.id with hc | ⟨_, hc⟩
  · exact h r hroot p hp (hc ▸ hid)
  · rw [hid] at hc
    exact absurd (List.mem_map_of_mem hp) (mem_replacementIds.mp hc).2.2

theorem standsIn_append {canon : String → String} {steps steps' : List DagStep} :
    standsIn root contracts canon (steps ++ steps') = true ↔
      standsIn root contracts canon steps = true ∧ standsIn root contracts canon steps' = true := by
  simp only [standsIn_iff, List.mem_append]
  constructor
  · exact fun h => ⟨fun r hr p hp => h r hr p (.inl hp), fun r hr p hp => h r hr p (.inr hp)⟩
  · rintro ⟨h1, h2⟩ r hr p (hp | hp)
    · exact h1 r hr p hp
    · exact h2 r hr p hp

/-- A repaired plan stands in when the repaired step does. -/
theorem standsIn_repairPlan {step : DagStep} {p : LocalRepairProposal}
    (hn : (stepIds s.plan.steps).Nodup) (hstep : step ∈ s.plan.steps)
    (h : standsIn s.root s.contracts (canonical s.aliases) s.plan.steps = true)
    (hrep : standsIn s.root s.contracts (canonical s.aliases) [repairStep step.id p step] = true) :
    standsIn s.root s.contracts (canonical s.aliases) (repairPlan s.plan step.id p).steps = true := by
  rw [standsIn_iff] at h hrep ⊢
  intro r hr q hq hid
  obtain ⟨q', hq', rfl⟩ := List.mem_map.mp hq
  by_cases he : q'.id = step.id
  · obtain rfl := List.inj_on_of_nodup_map hn hq' hstep he
    exact hrep r hr _ List.mem_cons_self hid
  · have hsame : repairStep step.id p q' = q' := by simp [repairStep, he]
    rw [hsame] at hid ⊢
    exact h r hr q' hq' hid

/-- Normal results come from normal steps of the history. -/
theorem results_of_trans (hraw : RawInv s) (ht : Trans cfg s c t)
    (h : ∀ sid, normalAt s.results sid = true → ∃ step ∈ normalSteps s.hist, step.id = sid)
    {sid : String} (hn : normalAt t.results sid = true) :
    ∃ step ∈ normalSteps t.hist, step.id = sid := by
  obtain ⟨r, hr, hnormal⟩ := Results.holdsAt_iff.mp hn
  rcases ht.result_cases hraw hr with ⟨r₀, ts, hr₀, rfl⟩ | hskip | hs
  · obtain ⟨step, hstep, hid⟩ := h sid (Results.holdsAt_iff.mpr ⟨r₀, hr₀, hnormal⟩)
    obtain ⟨r', hr', hn'⟩ := mem_normalSteps.mp hstep
    exact ⟨step, mem_normalSteps.mpr ⟨r', ht.hist_subset hr', hn'⟩, hid⟩
  · simp [StepResult.stepNormal, execStateIsNormal, hskip] at hnormal
  · refine ⟨stepOr s.plan sid, mem_normalSteps.mpr ⟨r, ?_, hnormal⟩, stepOr_id _ _⟩
    rw [hs.hist]
    exact List.mem_append_right _ List.mem_cons_self

/-- A step that settles normally is a step of the plan. -/
theorem standsIn_settled {sid : String} {r : StepResult} (h : GreenInv s) (hd : DataInv cfg s)
    (hin : s.pc.inRound = true) (hg : Genuine s sid r) :
    standsIn s.root s.contracts (canonical s.aliases)
      (normalSteps (s.hist ++ [Obs.settle (stepOr s.plan sid) r])) = true := by
  rw [normalSteps_append_settle]
  refine standsIn_append.mpr ⟨h.hist, ?_⟩
  cases hn : r.stepNormal with
  | false => simp [standsIn]
  | true =>
      have hplan := standsIn_iff.mp (h.plan (hd.root_nodup hin))
      rw [standsIn_iff]
      intro r' hr' p hp hid
      simp only [if_true, List.mem_singleton] at hp
      subst hp
      exact hplan r' hr' _ (hg.called hn).1 hid

theorem faithful_merging {site : Site} {k : Round} {revised : DagPlan} (hd : DataInv cfg s)
    (hpc : s.pc = .merging site k revised) (h : faithful s c = true) :
    standsIn s.root s.contracts (canonical (s.merge revised).aliases) revised.steps = true ∧
      standsIn s.root s.contracts (canonical (s.merge revised).aliases) (normalSteps s.hist) = true := by
  have hcanon : canonical (s.merge revised).aliases = s.canonicalWith revised :=
    funext fun sid => hd.canonical_merge (by rw [hpc]; rfl)
  unfold faithful at h
  rw [hpc] at h
  rw [hcanon]
  exact standsIn_append.mp h

/-- **One faithful move keeps the invariant.** -/
theorem GreenInv.trans (h : GreenInv s) (hd : DataInv cfg s) (hraw : RawInv s)
    (hok : faithful s c = true) (ht : Trans cfg s c t) : GreenInv t := by
  have hres : ∀ sid, normalAt t.results sid = true →
      ∃ step ∈ normalSteps t.hist, step.id = sid := fun _ hn => results_of_trans hraw ht h.results hn
  cases ht with
  | call _ _ _ =>
      exact ⟨h.plan, by simp, by rw [normalSteps_append_of_ne (by simp)]; exact h.hist, hres⟩
  | settle hpc =>
      exact ⟨h.plan, by simp, standsIn_settled h hd (by rw [hpc]; rfl) (.settle hraw hpc), hres⟩
  | settleRetry hpc =>
      exact ⟨h.plan, by simp, standsIn_settled h hd (by rw [hpc]; rfl) (.settleRetry hraw hpc), hres⟩
  | repair hpc _ =>
      refine ⟨fun hn => ?_, by simp, by rw [normalSteps_append_of_ne (by simp)]; exact h.hist, hres⟩
      have hin : s.pc.inRound = true := by rw [hpc]; rfl
      unfold faithful at hok
      rw [hpc] at hok
      exact standsIn_repairPlan (hd.plan_nodup hin) (hd.repairing _ _ _ hpc _ List.mem_cons_self).1
        (h.plan hn) hok
  | @mergeFail _ _ _ revised _ hpc =>
      have hplan := fun hn => standsIn_current revised (h.plan hn)
      have hf := faithful_merging hd hpc hok
      exact ⟨hplan, by simp, hf.2, hres⟩
  | @mergeAnnounce _ _ _ revised hpc =>
      have hplan := fun hn => standsIn_current revised (h.plan hn)
      have hf := faithful_merging hd hpc hok
      have hmerged := standsIn_merged hd hpc hf.1
      refine ⟨hplan, fun k' merged he => ?_, hf.2, hres⟩
      rw [← (Pc.announcing.inj he).2]
      exact hmerged
  | mergeAdopt hpc =>
      have hf := faithful_merging hd hpc hok
      have hmerged := standsIn_merged hd hpc hf.1
      exact ⟨fun _ => hmerged, by simp [adopt],
        by rw [adopt_hist, normalSteps_append_of_ne (by simp)]; exact hf.2, hres⟩
  | announce hpc _ =>
      exact ⟨fun _ => h.announced _ _ hpc, by simp [adopt],
        by rw [adopt_hist, normalSteps_append_of_ne (by simp)]; exact h.hist, hres⟩
  | foreign _ => exact ⟨h.plan, h.announced, h.hist, hres⟩
  | quiet hp _ _ =>
      refine ⟨h.plan, fun k merged hpc => ?_, h.hist, hres⟩
      simp only at hpc
      subst hpc
      cases hp
  | accept _ _ _ hpc' =>
      refine ⟨h.plan, fun k merged hpc => ?_, h.hist, hres⟩
      simp only at hpc
      subst hpc
      rcases hpc' with hp | ⟨_, site, k', he⟩
      · cases hp
      · cases he
  | _ => exact ⟨h.plan, by simp, h.hist, hres⟩

/-- **A passed gate means execution, as long as every move is faithful.**  In a run in which each
step that a merge or a repair supplies satisfies what the root step it stands in for satisfies,
every declared operation, and every contract once delivery is met, was executed with a normal
result whenever the gate passes. -/
theorem gate_pass_means_executed (plan : DagPlan) (contracts : List DeliveryContract) {s : State}
    (h : Lib.ReachesVia (step cfg) (fun s c => faithful s c = true) (State.fresh plan contracts) s) :
    NoFakeGreen s := by
  have hinv : DataInv cfg s ∧ RawInv s ∧ HistInv s ∧ GreenInv s := by
    apply h.invariant
    · exact ⟨DataInv.start .., RawInv.start plan .empty contracts [] [],
        by simp [HistInv, State.fresh, State.start], .fresh plan contracts⟩
    rintro t u c _ hok ⟨hd, hraw, hh, hg⟩ hs
    have ht := step_trans hs
    exact ⟨hd.trans ht, hraw.trans ht, hh.trans hraw ht, hg.trans hd hraw hok ht⟩
  obtain ⟨_, _, hh, hg⟩ := hinv
  -- a root step with a normal canonical result has an executed stand-in
  have hexec : ∀ r ∈ s.root.steps, normalAt s.results (canonical s.aliases r.id) = true →
      ∀ q ∈ requirements s.root s.contracts, RequiredOperation.stepSatisfies r q = true →
      ∃ step, RequiredOperation.stepSatisfies step q = true ∧ ExecutedNormally s.hist step := by
    intro r hr hn q hq hsat
    obtain ⟨step, hstep, hid⟩ := hg.results _ hn
    have hc := covers_iff.mp (standsIn_iff.mp hg.hist r hr step hstep hid.symm) q hq hsat
    obtain ⟨res, hres, hnormal⟩ := mem_normalSteps.mp hstep
    exact ⟨step, hc, ⟨res, hres, hnormal⟩, hh.called hres hnormal⟩
  intro hpass
  have hcomplete : (completionGate s.root s.results s.aliases s.contracts).mechanicalComplete =
      true := by
    unfold CompletionVerdict.passes at hpass
    rw [Bool.and_eq_true] at hpass
    exact hpass.1
  constructor
  · intro req hreq
    obtain ⟨r, hr, hsat, hn⟩ := declared_of_complete hcomplete hreq
    exact hexec r hr hn req (List.mem_append_left _ hreq) hsat
  · intro hmet c hc
    obtain ⟨r, hr, hsat, hn⟩ := contract_of_met hmet hc
    exact hexec r hr hn _ (List.mem_append_right _ (List.mem_map_of_mem hc)) hsat

/-- A test for a contract that is reported as met although nothing that satisfies it ended
normally. -/
def metWithoutExecution (s : State) : Bool :=
  let verdict := completionGate s.root s.results s.aliases s.contracts
  verdict.passes && verdict.deliverableStatus = .met && s.contracts.any fun c =>
    (normalSteps s.hist).all fun step => !RequiredOperation.stepSatisfies step c.toRequiredOperation

theorem not_noFakeGreen (h : metWithoutExecution s = true) : ¬NoFakeGreen s := by
  intro hng
  unfold metWithoutExecution at h
  simp only [Bool.and_eq_true, decide_eq_true_eq, List.any_eq_true, List.all_eq_true,
    Bool.not_eq_true'] at h
  obtain ⟨⟨hpass, hmet⟩, c, hc, hnone⟩ := h
  obtain ⟨step, hsat, ⟨r, hr, hn⟩, _⟩ := (hng hpass).2 hmet c hc
  rw [hnone step (mem_normalSteps.mpr ⟨r, hr, hn⟩)] at hsat
  cases hsat

end standing
end delivery

/-! ### A delivery that was never made -/

section scenario
attribute [local instance] asciiPy

/-- Write a report. -/
def reportPlan : DagPlan := { steps := [writeStep "save" "report.txt" "draft" []] }

/-- The user asked for the report to be written. -/
def reportContract : DeliveryContract :=
  { tool := "file_op", input := [("operation", .str "write"), ("path", .str "report.txt")]
    contractId := "report", source := .caller }

/-- A revision that lists the failed write again and adds a step of its own. -/
def listInstead : DagPlan :=
  { steps := [writeStep "save" "report.txt" "final" [], fileStep "look" "list" "." []] }

/-- The write fails twice, the listing succeeds and is bound to the write, and the planner then
asks for nothing more. -/
def listInsteadScript : List Choice :=
  Choice.enter "p" :: playLayer 1 [("save", refused "disk full")] ++
    [Choice.revise (some listInstead), .tick, .tick, .enter "q"] ++
    playLayer 2 [("save", refused "disk full"), ("look", answered (.obj [("success", .bool true)]))] ++
    [Choice.revise (some {}), .tick, .tick]

/-- The run is reported as completed and the contract as met, yet no write ever succeeded. -/
theorem report_met_but_never_written : ∃ s,
    Lib.Reaches (step fileConfig) (State.fresh reportPlan [reportContract]) s ∧
      (s.pc = .finished true) ∧ ¬NoFakeGreen s := by
  obtain ⟨s, hs, hp⟩ := Lib.exists_reaches_of_run (step fileConfig) listInsteadScript
    (State.fresh reportPlan [reportContract]) (fun s => s.pc.endedWith true && metWithoutExecution s)
    (by decide +kernel)
  rw [Bool.and_eq_true] at hp
  exact ⟨s, hs, Pc.endedWith_iff.mp hp.1, not_noFakeGreen hp.2⟩

/-- A replacement that writes the same file. -/
def rewriteScript : List Choice :=
  Choice.enter "p" :: playLayer 1 [("save", refused "disk full")] ++
    [Choice.revise (some { steps := [writeStep "save2" "report.txt" "final" []] }), .tick, .tick, .enter "q"] ++
    playLayer 1 [("save2", answered (.obj [("success", .bool true)]))] ++ [Choice.tick, .tick, .tick]

theorem report_met_and_written : ∃ s,
    Lib.ReachesVia (step fileConfig) (fun s c => faithful s c = true)
      (State.fresh reportPlan [reportContract]) s ∧
    (completionGate s.root s.results s.aliases s.contracts).passes = true ∧ NoFakeGreen s := by
  obtain ⟨s, hs, hp⟩ := Lib.exists_reachesVia_of_run (step fileConfig) faithful rewriteScript
    (State.fresh reportPlan [reportContract])
    (fun s => (completionGate s.root s.results s.aliases s.contracts).passes &&
      s.pc.endedWith true) (by decide +kernel)
  rw [Bool.and_eq_true] at hp
  exact ⟨s, hs, hp.1, gate_pass_means_executed reportPlan [reportContract] hs⟩

end scenario
end JAgent
