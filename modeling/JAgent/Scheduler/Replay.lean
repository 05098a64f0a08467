import JAgent.Core.Closure
import JAgent.Scheduler.SideEffects

/-! # Failed actions are not replayed

An action that has failed is worth another call only when something upstream of it is new.  The
guard of the revisions (`findDegenerateRevisedSteps`) says so of the steps a revision lists, as far
as the plan and the results of the running round know.  It does not see the original steps that the
merge adds afterwards, the actions that failed in a round before, and the plan that a local repair
leaves as it is: these are the ways in which a failed action comes back unchanged.

`NoReplay` reads the rounds of a run off its history; `keepsFailuresOut` says of a revision and of
a repair that none of the three ways is taken. -/

namespace JAgent

/-! ### What the guard lets through -/

/-- **What an accepted revision guarantees**: a step with an action that has failed in this round has
an action upstream that the plan of this round does not have. -/
theorem new_upstream_of_not_degenerate [Py] {plan revised : DagPlan} {results : Results}
    (h : findDegenerateRevisedSteps plan results revised = []) {rs p : DagStep}
    (hrs : rs ∈ revised.steps) (hp : p ∈ plan.steps)
    (hfailed : Results.holdsAt results ranAndFailedResult p.id = true)
    (hsig : stepSignature p = stepSignature rs) :
    ∃ m ∈ revised.steps, Upstream revised.steps rs.id m.id ∧
      ∀ q ∈ plan.steps, stepSignature q ≠ stepSignature m := by
  have hin : stepSignature rs ∈ (plan.steps.filter fun s =>
      Results.holdsAt results ranAndFailedResult s.id).map stepSignature :=
    List.mem_map.mpr ⟨p, List.mem_filter.mpr ⟨hp, hfailed⟩, hsig⟩
  unfold findDegenerateRevisedSteps at h
  simp only at h
  split_ifs at h with hempty
  · rw [List.isEmpty_iff] at hempty
    rw [hempty] at hin
    cases hin
  · rw [List.map_eq_nil_iff, List.filter_eq_nil_iff] at h
    have hnot := h rs hrs
    rw [List.contains_iff_mem.mpr hin, Bool.true_and, List.all_eq_true] at hnot
    push Not at hnot
    obtain ⟨cid, hcid, hout⟩ := hnot
    split at hout
    next m hm =>
      obtain ⟨hmem, rfl⟩ := get?_stepMap_mem hm
      have hup := upstream_of_mem_dependencyClosure (List.mem_map_of_mem hrs) hcid
      refine ⟨m, hmem, hup, fun q hq he => hout ?_⟩
      exact List.contains_iff_mem.mpr (List.mem_map.mpr ⟨q, hq, he⟩)
    next => exact absurd rfl hout

/-! ### The rounds of a history -/

/-- The plan in force after an observation. -/
def Obs.planAfter (steps : List DagStep) : Obs → List DagStep
  | .adopt steps' => steps'
  | .repair step => steps.map fun q => if q.id = step.id then step else q
  | _ => steps

/-- The plan in force after a history that began with the given plan. -/
def planAt (first : List DagStep) (hist : List Obs) : List DagStep := hist.foldl Obs.planAfter first

theorem planAt_append (first : List DagStep) (hist : List Obs) (o : Obs) :
    planAt first (hist ++ [o]) = o.planAfter (planAt first hist) := by
  unfold planAt
  rw [List.foldl_append]
  rfl

section history
variable [Py] (first : List DagStep) (hist : List Obs)

/-- Some plan of the history has the action of the step. -/
def occurred (step : DagStep) : Bool :=
  hist.inits.any fun h => (planAt first h).any fun q => stepSignature q = stepSignature step

/-- The action of the step ended FAILED, or UNSUCCESSFUL without probe. -/
def Obs.failureOf (step : DagStep) : Obs → Bool
  | .settle q r => ranAndFailedResult r && stepSignature q = stepSignature step
  | _ => false

/-- The action of the step has failed in the history. -/
def hasFailed (step : DagStep) : Bool := hist.any (Obs.failureOf step)

/-- An action upstream of the step is in no plan of the history. -/
def Renewed (steps : List DagStep) (sid : String) : Prop :=
  ∃ m ∈ steps, Upstream steps sid m.id ∧ occurred first hist m = false

/-- **A failed action is not replayed**: in a later round it is executed again only if an action
upstream of it, in the plan of that round, was in no plan up to the failure. -/
def NoReplay : Prop :=
  ∀ before since step r again input seen,
    before ++ .settle step r :: since ++ [.call again input seen] <+: hist →
    ranAndFailedResult r = true → since.any Obs.heals = true → stepSignature again = stepSignature step →
    Renewed first before (planAt first (before ++ .settle step r :: since)) again.id

/-- Every step of a plan whose action has failed has an action upstream that is in no plan so far. -/
def Fresh (steps : List DagStep) : Prop :=
  ∀ q ∈ steps, hasFailed hist q = true → Renewed first hist steps q.id

/-- The plan of the running round is fresh as far as the rounds before it are concerned. -/
def FreshRound (steps : List DagStep) : Prop :=
  ∀ before since step r, before ++ .settle step r :: since = hist → ranAndFailedResult r = true →
    since.any Obs.heals = true → ∀ q ∈ steps, stepSignature q = stepSignature step →
    Renewed first before steps q.id

variable {first hist} {steps : List DagStep} {sid : String}

theorem occurred_of_initial {before : List Obs} {m : DagStep} (hp : before <+: hist)
    (h : occurred first before m = true) : occurred first hist m = true := by
  unfold occurred at h ⊢
  rw [List.any_eq_true] at h ⊢
  obtain ⟨h', hmem, hany⟩ := h
  exact ⟨h', (List.mem_inits _ _).mpr (((List.mem_inits _ _).mp hmem).trans hp), hany⟩

theorem Renewed.of_initial {before : List Obs} (hp : before <+: hist)
    (h : Renewed first hist steps sid) : Renewed first before steps sid := by
  obtain ⟨m, hm, hup, hnew⟩ := h
  refine ⟨m, hm, hup, ?_⟩
  cases hold : occurred first before m with
  | false => rfl
  | true =>
      rw [occurred_of_initial hp hold] at hnew
      cases hnew

/-- An observation that calls nothing. -/
theorem NoReplay.append {o : Obs} (h : NoReplay first hist)
    (ho : ∀ step input seen, o ≠ .call step input seen) : NoReplay first (hist ++ [o]) := by
  intro before since step r again input seen hpre hr hround hsig
  rcases List.prefix_concat_iff.mp hpre with he | hpre
  · have hlast := (List.append_inj' he rfl).2
    exact absurd (List.singleton_inj.mp hlast).symm (ho again input seen)
  · exact h before since step r again input seen hpre hr hround hsig

/-- A call of a step of a plan that is fresh. -/
theorem NoReplay.append_call {step : DagStep} {input : Obj} {seen : Results}
    (h : NoReplay first hist) (hfresh : FreshRound first hist (planAt first hist))
    (hmem : step ∈ planAt first hist) : NoReplay first (hist ++ [.call step input seen]) := by
  intro before since failed r again input' seen' hpre hr hround hsig
  rcases List.prefix_concat_iff.mp hpre with he | hpre
  · obtain ⟨hhist, hlast⟩ := List.append_inj' he rfl
    obtain ⟨rfl, -, -⟩ := Obs.call.inj (List.singleton_inj.mp hlast)
    rw [hhist]
    exact hfresh before since failed r hhist hr hround again hmem hsig
  · exact h before since failed r again input' seen' hpre hr hround hsig

/-- An observation inside a round. -/
theorem FreshRound.append {o : Obs} (h : FreshRound first hist steps) (ho : o.heals = false) :
    FreshRound first (hist ++ [o]) steps := by
  intro before since step r he hr hround
  rcases Lib.entry_of_append he.symm with ⟨_, _, rfl⟩ | ⟨since', rfl, he'⟩
  · cases hround
  · refine h before since' step r he'.symm hr ?_
    simpa [ho] using hround

/-- A new round starts with a fresh plan. -/
theorem Fresh.round {o : Obs} (h : Fresh first hist steps) (ho : ∀ step r, o ≠ .settle step r) :
    FreshRound first (hist ++ [o]) steps := by
  intro before since step r he hr _ q hq hsig
  rcases Lib.entry_of_append he.symm with ⟨_, hx, _⟩ | ⟨since', rfl, rfl⟩
  · exact absurd hx.symm (ho step r)
  · refine (h q hq ?_).of_initial (List.prefix_append _ _)
    unfold hasFailed
    rw [List.any_eq_true]
    exact ⟨.settle step r, by simp, by simp [Obs.failureOf, hr, hsig]⟩

end history

/-! ### The condition -/

section runs
variable [Py] {cfg : Config} {s t : State} {c : Choice}

/-- The guard sees the failure of the action: a step of the running round with this action has failed. -/
def guardSees (s : State) (rs : DagStep) : Bool :=
  s.plan.steps.any fun p => Results.holdsAt s.results ranAndFailedResult p.id &&
    stepSignature p = stepSignature rs

/-- The revision takes up no action of an earlier round that the plan of this round has dropped. -/
def bringsNothingBack (s : State) (revised : DagPlan) : Bool :=
  revised.steps.all fun m => !occurred s.root.steps s.hist m ||
    s.plan.steps.any fun p => stepSignature p = stepSignature m

/-- The merge restores no original step whose action has failed: such a step is listed by the
revision, or is replaced, or has succeeded since. -/
def restoresNoFailure (s : State) (revised : DagPlan) : Bool :=
  s.root.steps.all fun q => !hasFailed s.hist q || (stepIds revised.steps).contains q.id ||
    normalAt s.results q.id || s.canonicalWith revised q.id ≠ q.id

/-- The merge of a revision restores no failed action, and the guard saw every failed action that the
revision lists; a local repair leaves no failed action in the plan. -/
def keepsFailuresOut (cfg : Config) (s : State) (c : Choice) : Bool :=
  match s.pc, c with
  | .merging _ _ revised, .tick => restoresNoFailure s revised &&
      revised.steps.all fun rs => !hasFailed s.hist rs || (guardSees s rs && bringsNothingBack s revised)
  | .repairing _ _ (failed :: _), .propose (some p) =>
      !isReadOnlyAction p.toolName p.input (readOnlyToolMap cfg.toolDefs) ||
        (repairPlan s.plan failed.id p).steps.all fun q => !hasFailed s.hist q
  | _, _ => true

/-- A listed step whose failure the guard has seen is renewed. -/
theorem renewed_of_guardSees {revised : DagPlan}
    (hdeg : findDegenerateRevisedSteps s.plan s.results revised = []) {rs : DagStep}
    (hrs : rs ∈ revised.steps) (hsees : guardSees s rs = true)
    (hback : bringsNothingBack s revised = true) :
    Renewed s.root.steps s.hist revised.steps rs.id := by
  unfold guardSees at hsees
  rw [List.any_eq_true] at hsees
  obtain ⟨p, hp, hsees⟩ := hsees
  rw [Bool.and_eq_true, decide_eq_true_eq] at hsees
  obtain ⟨m, hm, hup, hnew⟩ := new_upstream_of_not_degenerate hdeg hrs hp hsees.1 hsees.2
  refine ⟨m, hm, hup, ?_⟩
  unfold bringsNothingBack at hback
  have hmback := List.all_eq_true.mp hback m hm
  rw [Bool.or_eq_true] at hmback
  rcases hmback with hmback | hmback
  · simpa using hmback
  · obtain ⟨q, hq, he⟩ := List.any_eq_true.mp hmback
    exact absurd (of_decide_eq_true he) (hnew q hq)

/-- A merged plan is fresh under the condition. -/
theorem fresh_merge (hd : DataInv cfg s)
    {site : Site} {k : Round} {revised : DagPlan} (hpc : s.pc = .merging site k revised)
    (hdeg : findDegenerateRevisedSteps s.plan s.results revised = [])
    (hok : keepsFailuresOut cfg s .tick = true) :
    Fresh s.root.steps s.hist (s.merge revised).plan.steps := by
  have hin : s.pc.inRound = true := by rw [hpc]; rfl
  simp only [keepsFailuresOut, hpc, Bool.and_eq_true] at hok
  obtain ⟨hrestore, hlisted⟩ := hok
  have hsub : revised.steps ⊆ (s.merge revised).plan.steps := by
    intro q hq
    refine List.mem_append_left _ ?_
    rw [values_stepMap (hd.revised_nodup hpc)]
    exact hq
  intro q hq hfailed
  rcases List.mem_append.mp hq with hq | hq
  · have hrs := mem_of_mem_values_stepMap hq
    have hq' := List.all_eq_true.mp hlisted q hrs
    rw [hfailed, Bool.not_true, Bool.false_or, Bool.and_eq_true] at hq'
    obtain ⟨m, hm, hup, hnew⟩ := renewed_of_guardSees hdeg hrs hq'.1 hq'.2
    exact ⟨m, hsub hm, hup.mono hsub, hnew⟩
  · obtain ⟨q₀, hq₀, rfl⟩ := List.mem_map.mp hq
    obtain ⟨hroot, hcond⟩ := List.mem_filter.mp hq₀
    have hq' := List.all_eq_true.mp hrestore q₀ (mem_of_mem_values_stepMap hroot)
    have hfailed' : hasFailed s.hist q₀ = true := hfailed
    have hcanon : s.canonicalWith revised q₀.id = canonical (s.merge revised).aliases q₀.id :=
      (hd.canonical_merge hin).symm
    rw [hfailed', hcanon] at hq'
    simp only [Bool.and_eq_true, decide_eq_true_eq, Bool.not_eq_true'] at hcond
    obtain ⟨⟨hself, hlist⟩, hnormal⟩ := hcond
    have hself' : canonical (s.merge revised).aliases q₀.id = q₀.id := hself
    rw [hlist, hnormal] at hq'
    simp [hself'] at hq'

/-- What the guard finds does not depend on the annotations of the results. -/
theorem findDegenerateRevisedSteps_mergeStepTasks (plan revised : DagPlan) (results : Results) :
    findDegenerateRevisedSteps plan (mergeStepTasks results revised) revised =
      findDegenerateRevisedSteps plan results revised := by
  have hholds : Results.holdsAt (mergeStepTasks results revised) ranAndFailedResult =
      Results.holdsAt results ranAndFailedResult := by
    funext sid
    exact holdsAt_mergeStepTasks (fun _ _ => rfl) results revised sid
  unfold findDegenerateRevisedSteps
  rw [hholds]

theorem root_of_trans (h : Trans cfg s c t) : t.root = s.root := by
  cases h <;> rfl

/-- A pending merge is made by a tick. -/
theorem tick_of_merging {site : Site} {k : Round} {revised : DagPlan} (hpc : s.pc = .merging site k revised)
    (hs : step cfg s c = some t) (hleft : t.pc ≠ s.pc) : c = .tick := by
  cases c with
  | tick => rfl
  | event e =>
      simp only [step] at hs
      split_ifs at hs
      cases hs
      exact absurd rfl hleft
  | _ =>
      simp only [step, hpc, stepMerging] at hs
      cases hs

/-! ### The invariant -/

/-- The plan in force, the revision pending and the plan of the next round. -/
structure ReplayInv (s : State) : Prop where
  plan : planAt s.root.steps s.hist = s.plan.steps
  hist : NoReplay s.root.steps s.hist
  round : FreshRound s.root.steps s.hist s.plan.steps
  merging : ∀ site k revised, s.pc = .merging site k revised →
    findDegenerateRevisedSteps s.plan s.results revised = []
  announcing : ∀ k merged, s.pc = .announcing k merged → Fresh s.root.steps s.hist merged.steps

theorem ReplayInv.start (plan : DagPlan) (results : Results) (contracts : List DeliveryContract)
    (log : List Event) : ReplayInv (State.start plan results contracts log []) := by
  refine ⟨rfl, ?_, ?_, ?_, ?_⟩
  · intro before since step r again input seen hpre
    have hlen := hpre.length_le
    simp [State.start] at hlen
  · intro before since step r he
    cases before <;> cases he
  · intro site k revised hpc
    cases hpc
  · intro k merged hpc
    cases hpc

/-- A move inside a round that calls nothing, and after which neither a merge nor a merged plan is
pending. -/
theorem ReplayInv.frame (h : ReplayInv s) (hroot : t.root = s.root) (hplan : t.plan = s.plan)
    (hhist : t.hist = s.hist) (hm : ∀ site k revised, t.pc ≠ .merging site k revised)
    (ha : ∀ k merged, t.pc ≠ .announcing k merged) : ReplayInv t := by
  refine ⟨?_, ?_, ?_, fun site k revised hpc => absurd hpc (hm site k revised),
    fun k merged hpc => absurd hpc (ha k merged)⟩
  · rw [hroot, hplan, hhist]
    exact h.plan
  · rw [hroot, hhist]
    exact h.hist
  · rw [hroot, hplan, hhist]
    exact h.round

/-- A step settles. -/
theorem ReplayInv.settle (h : ReplayInv s) {step : DagStep} {r : StepResult} (hroot : t.root = s.root)
    (hplan : t.plan = s.plan) (hhist : t.hist = s.hist ++ [.settle step r])
    (hm : ∀ site k revised, t.pc ≠ .merging site k revised)
    (ha : ∀ k merged, t.pc ≠ .announcing k merged) : ReplayInv t := by
  refine ⟨?_, ?_, ?_, fun site k revised hpc => absurd hpc (hm site k revised),
    fun k merged hpc => absurd hpc (ha k merged)⟩
  · rw [hroot, hplan, hhist, planAt_append]
    exact h.plan
  · rw [hroot, hhist]
    exact h.hist.append (by simp)
  · rw [hroot, hplan, hhist]
    exact h.round.append rfl

/-- A new round starts. -/
theorem ReplayInv.open (h : ReplayInv s) {o : Obs} (hroot : t.root = s.root)
    (hplan : o.planAfter s.plan.steps = t.plan.steps) (hhist : t.hist = s.hist ++ [o])
    (ho : o.heals = true) (hfresh : Fresh s.root.steps s.hist t.plan.steps) (hpc : t.pc = .entry) :
    ReplayInv t := by
  refine ⟨?_, ?_, ?_, ?_, ?_⟩
  · rw [hroot, hhist, planAt_append, h.plan]
    exact hplan
  · rw [hroot, hhist]
    refine h.hist.append ?_
    rintro step input seen rfl
    cases ho
  · rw [hroot, hhist]
    refine hfresh.round ?_
    rintro step r rfl
    cases ho
  · intro site k revised hpc'
    rw [hpc] at hpc'
    cases hpc'
  · intro k merged hpc'
    rw [hpc] at hpc'
    cases hpc'

omit [Py] in
/-- Replacing the repaired step in the plan. -/
theorem planAfter_repair {plan : DagPlan} {failed : DagStep} {p : LocalRepairProposal}
    (hn : (stepIds plan.steps).Nodup) (hmem : failed ∈ plan.steps) :
    (Obs.repair (repairStep failed.id p failed)).planAfter plan.steps =
      (repairPlan plan failed.id p).steps := by
  refine List.map_congr_left fun q hq => ?_
  rw [repairStep_id]
  by_cases hid : q.id = failed.id
  · rw [if_pos hid, List.inj_on_of_nodup_map hn hq hmem hid]
  · rw [if_neg hid]
    unfold repairStep
    rw [if_neg hid]

/-- **One move keeps the rounds fresh** under the condition. -/
theorem ReplayInv.step (h : ReplayInv s) (hd : DataInv cfg s) (hok : keepsFailuresOut cfg s c = true)
    (hs : JAgent.step cfg s c = some t) : ReplayInv t := by
  have ht := step_trans hs
  have hframe := h.frame (t := t)
  cases ht with
  | quiet hp _ _ =>
      refine hframe rfl rfl rfl (plain_ne hp).2 ?_
      rintro k merged rfl
      cases hp
  | heal _ _ _ | enter _ _ _ _ | nextLayer _ _ | move _ _ _ | gateSkip _ _ _ | layerDone _ _
  | mergeFail _ => exact hframe rfl rfl rfl (by simp) (by simp)
  | foreign _ => exact ⟨h.plan, h.hist, h.round, h.merging, h.announcing⟩
  | call _ _ hprep =>
      refine ⟨?_, ?_, h.round.append rfl, by simp, by simp⟩
      · rw [planAt_append]
        exact h.plan
      · have hmem := (prepareStep_call hprep).1
        rw [← h.plan] at hmem
        refine h.hist.append_call ?_ hmem
        rw [h.plan]
        exact h.round
  | settle _ => exact h.settle rfl rfl rfl (by simp) (by simp)
  | settleRetry _ => exact h.settle rfl rfl rfl (by simp) (by simp)
  | @repair site k failed rest p es rounds hpc _ =>
      have hin : s.pc.inRound = true := by rw [hpc]; rfl
      have hmem := (hd.repairing site k _ hpc failed List.mem_cons_self).1
      refine h.open rfl (planAfter_repair (hd.plan_nodup hin) hmem) rfl rfl ?_ rfl
      have hro := readOnly_of_repair hpc hs rfl
      simp only [keepsFailuresOut, hpc, hro, Bool.not_true, Bool.false_or] at hok
      intro q hq hfailed
      have hq' := List.all_eq_true.mp hok q hq
      rw [hfailed] at hq'
      cases hq'
  | @accept _ revised es pc _ _ _ hpc' =>
      rcases hpc' with hp | ⟨hne, site, k, rfl⟩
      · refine hframe rfl rfl rfl (plain_ne hp).2 ?_
        rintro k merged rfl
        cases hp
      · refine ⟨h.plan, h.hist, h.round, ?_, by simp⟩
        rintro site' k' revised' ⟨⟩
        rw [findDegenerateRevisedSteps_mergeStepTasks]
        rcases guarded_of_step hs rfl with hold | hguard
        · exact h.merging site k revised hold
        · exact hguard.1
  | @mergeAnnounce _ site k revised hpc =>
      obtain rfl := tick_of_merging hpc hs (by simp [hpc])
      refine ⟨h.plan, h.hist, h.round, by simp, ?_⟩
      rintro k' merged' ⟨⟩
      exact fresh_merge hd hpc (h.merging site k revised hpc) hok
  | @mergeAdopt _ site k revised hpc =>
      obtain rfl := tick_of_merging hpc hs (by simp [hpc, adopt])
      refine h.open rfl rfl rfl rfl ?_ rfl
      exact fresh_merge hd hpc (h.merging site k revised hpc) hok
  | @announce _ k merged es hpc _ =>
      refine h.open rfl rfl rfl rfl ?_ rfl
      exact h.announcing k merged hpc

/-- **A failed action is not replayed** in any run whose revisions and repairs keep failures out. -/
theorem failed_action_not_replayed (plan : DagPlan) (results : Results)
    (contracts : List DeliveryContract) (log : List Event)
    (h : Lib.ReachesVia (step cfg) (fun s c => keepsFailuresOut cfg s c = true)
      (State.start plan results contracts log []) s) : NoReplay plan.steps s.hist := by
  have hinv : (DataInv cfg s ∧ ReplayInv s) ∧ s.root = plan := by
    refine h.invariant (I := fun s => (DataInv cfg s ∧ ReplayInv s) ∧ s.root = plan)
      ⟨⟨.start _ _ _ _ _, .start _ _ _ _⟩, rfl⟩ ?_
    intro t u c _ hok ht hs
    exact ⟨⟨ht.1.1.trans (step_trans hs), ht.1.2.step ht.1.1 hok hs⟩, (root_of_trans (step_trans hs)).trans ht.2⟩
  rw [← hinv.2]
  exact hinv.1.2.hist

end runs

/-! ### A read that fails -/

section scenario

/-- A test for a failed action that is called again in the next round with nothing new upstream. -/
def replaysAlone [Py] (first : List DagStep) : List Obs → Bool
  | [.call _ _ _, .settle step r, .adopt steps, .call again _ _] =>
    ranAndFailedResult r && stepSignature again = stepSignature step && steps.all fun q =>
      q.id ≠ again.id || (q.dependsOn.isEmpty && first.any fun p => stepSignature p = stepSignature q)
  | _ => false

theorem not_noReplay [Py] {first : List DagStep} {hist : List Obs} (h : replaysAlone first hist = true) :
    ¬NoReplay first hist := by
  unfold replaysAlone at h
  split at h
  next called input₀ seen₀ step r steps again input seen =>
    simp only [Bool.and_eq_true, decide_eq_true_eq, List.all_eq_true, Bool.or_eq_true] at h
    obtain ⟨⟨hr, hsig⟩, hall⟩ := h
    intro hno
    obtain ⟨m, hm, hup, hnew⟩ := hno [.call called input₀ seen₀] [.adopt steps] step r again input seen
      (List.prefix_refl _) hr rfl hsig
    have hm' : m ∈ steps := hm
    have hid : m.id = again.id := by
      refine hup.eq_of_isolated ?_
      intro q hq hid
      have hq' := hall q hq
      simp only [hid, ne_eq, not_true_eq_false, false_or, List.isEmpty_iff] at hq'
      exact hq'.1
    have hold := hall m hm'
    simp only [hid, ne_eq, not_true_eq_false, false_or] at hold
    obtain ⟨p, hp, he⟩ := List.any_eq_true.mp hold.2
    have hin : occurred first [.call called input₀ seen₀] m = true := by
      unfold occurred
      rw [List.any_eq_true]
      exact ⟨[], by simp, List.any_eq_true.mpr ⟨p, hp, he⟩⟩
    rw [hin] at hnew
    cases hnew
  next => cases h

attribute [local instance] asciiPy

/-- Read a file. -/
def oneRead : DagPlan := { steps := [fileStep "s" "read" "a.txt" []] }

/-- The read fails, and the planner answers with a revision. -/
def readFails (revised : DagPlan) : List Choice :=
  Choice.enter "p" :: playLayer 1 [("s", refused "locked")] ++
    [Choice.revise (some revised), .tick, .tick, .enter "q"]

/-- Two reads of other files: they replace nothing, so the failed read is restored and called again. -/
theorem failed_read_replayed : ∃ s,
    Lib.Reaches (step fileConfig) (State.start oneRead .empty [] [] []) s ∧
      ¬NoReplay oneRead.steps s.hist := by
  let revised : DagPlan := { steps := [fileStep "x" "read" "b.txt" [], fileStep "y" "read" "c.txt" []] }
  obtain ⟨s, hs, hp⟩ := Lib.exists_reaches_of_run (step fileConfig)
    (readFails revised ++ List.replicate 9 Choice.tick ++ [.call "s"])
    (State.start oneRead .empty [] [] []) (fun s => replaysAlone oneRead.steps s.hist) (by decide +kernel)
  exact ⟨s, hs, not_noReplay hp⟩

/-- The observation calls the Tool Layer for the step. -/
def Obs.calls (sid : String) : Obs → Bool
  | .call step _ _ => step.id = sid
  | _ => false

/-- The revision lists the failed read behind a new step, and the read is called again. -/
theorem failed_read_renewed : ∃ s,
    Lib.ReachesVia (step fileConfig) (fun s c => keepsFailuresOut fileConfig s c = true)
      (State.start oneRead .empty [] [] []) s ∧ (s.hist.filter (Obs.calls "s")).length = 2 ∧
      NoReplay oneRead.steps s.hist := by
  let revised : DagPlan := { steps := [fileStep "w" "list" "." [], fileStep "s" "read" "a.txt" ["w"]] }
  obtain ⟨s, hs, hp⟩ := Lib.exists_reachesVia_of_run (step fileConfig) (keepsFailuresOut fileConfig)
    (readFails revised ++ playLayer 1 [("w", answered .null)] ++ List.replicate 5 Choice.tick ++ [.call "s"])
    (State.start oneRead .empty [] [] []) (fun s => (s.hist.filter (Obs.calls "s")).length = 2)
    (by decide +kernel)
  exact ⟨s, hs, of_decide_eq_true hp, failed_action_not_replayed oneRead .empty [] [] hs⟩

end scenario
end JAgent
