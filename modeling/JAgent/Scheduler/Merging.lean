import JAgent.Scheduler.Completion
import JAgent.Scheduler.Process

/-! # Merging a revision

What a merge does to a running plan, judged against what the run needs from it: the plan it
produces is accepted again at the next entry, original work that is not done stays scheduled,
no name is left dangling, and the invariant guard blames a revision only for what it did.
Each of these depends on how the revision, the aliases and the results fit together; the
theorems of this module say exactly when it holds. -/

namespace JAgent

section merging
variable [Py] {cfg : Config} {s : State}

/-! ### The verdict at the next entry -/

/-- **The entry accepts a merged plan exactly when the plan is closed**: given that the plan was
accepted after the merge, it is accepted again without context if and only if no merged step
depends on or refers to a step outside the plan. -/
theorem entry_accepts_merged_iff (registry : Registry) (root current revised : DagPlan)
    (results : Results) (aliases : Aliases)
    (h : let m := mergeRevisedPlan root current revised results aliases
      validate registry m.plan (Results.idsWith m.results StepResult.stepNormal)
        (Results.idsWith m.results StepResult.outputAvailable) = []) :
    validate registry (mergeRevisedPlan root current revised results aliases).plan [] [] = [] ↔
      Closed (mergeRevisedPlan root current revised results aliases).plan.steps :=
  validate_nil_iff_closed h

/-! ### Original work that is still to do -/

/-- Every root step without a normal canonical result has its canonical step in the merged plan. -/
def KeepsWork (s : State) (revised : DagPlan) : Prop :=
  ∀ r ∈ s.root.steps,
    normalAt (s.merge revised).results (canonical (s.merge revised).aliases r.id) = false →
      canonical (s.merge revised).aliases r.id ∈ stepIds (s.merge revised).plan.steps

instance (s : State) (revised : DagPlan) : Decidable (KeepsWork s revised) :=
  inferInstanceAs (Decidable (∀ r ∈ s.root.steps, _))

/-- Every root step whose replacement is not normal is bound anew, or the revision lists the
replacement again. -/
def RelistsReplacements (s : State) (revised : DagPlan) : Prop :=
  ∀ r ∈ s.root.steps, canonical s.aliases r.id ≠ r.id →
    normalAt s.results (canonical s.aliases r.id) = false →
    s.canonicalWith revised r.id = canonical s.aliases r.id →
      canonical s.aliases r.id ∈ stepIds revised.steps

instance (s : State) (revised : DagPlan) : Decidable (RelistsReplacements s revised) :=
  inferInstanceAs (Decidable (∀ r ∈ s.root.steps, _))

theorem normalAt_merge (s : State) (revised : DagPlan) (sid : String) :
    normalAt (s.merge revised).results sid =
      (decide (canonical (s.merge revised).aliases sid = sid) && normalAt s.results sid) :=
  normalAt_clearedResults

/-- A step that is its own canonical step is as normal after the merge as before. -/
theorem normalAt_merge_of_canonical {revised : DagPlan} {sid : String}
    (h : canonical (s.merge revised).aliases sid = sid) :
    normalAt (s.merge revised).results sid = normalAt s.results sid := by
  rw [normalAt_merge, decide_eq_true h, Bool.true_and]

theorem mem_merged_iff (hd : DataInv cfg s) (hin : s.pc.inRound = true) (revised : DagPlan)
    {sid : String} : sid ∈ stepIds (s.merge revised).plan.steps ↔
      sid ∈ stepIds revised.steps ∨ (sid ∈ stepIds s.root.steps ∧
        canonical (s.merge revised).aliases sid = sid ∧ normalAt s.results sid = false) :=
  mem_stepIds_mergedSteps (hd.root_nodup hin)

/-- **A merge keeps all unfinished work exactly when** every failed replacement is listed again
or its root step is bound anew. -/
theorem merge_keeps_work_iff (plan : DagPlan) (contracts : List DeliveryContract)
    (h : Lib.Reaches (processStep cfg) (State.fresh plan contracts) s) (hin : s.pc.inRound = true)
    (revised : DagPlan) : KeepsWork s revised ↔ RelistsReplacements s revised := by
  have hd := (processInv_of_reaches h).data
  have hal := hd.aliases_merge revised
  constructor
  · intro hk r hr hne hnormal hsame
    rw [← hd.canonical_merge hin] at hsame
    have hin' := hk r hr (by rw [hsame, normalAt_merge, hnormal, Bool.and_false])
    rw [hsame, mem_merged_iff hd hin] at hin'
    exact hin'.resolve_right fun hc => hd.aliases.not_root hne hc.1
  · intro hk r hr hnormal
    rw [mem_merged_iff hd hin]
    by_cases hself : canonical (s.merge revised).aliases r.id = r.id
    · rw [hself] at hnormal ⊢
      rw [normalAt_merge_of_canonical hself] at hnormal
      exact .inr ⟨List.mem_map_of_mem hr, hself, hnormal⟩
    · rw [normalAt_merge_of_canonical (hal.canonical_of_not_root (hal.not_root hself))] at hnormal
      rcases (s.merge_spec revised).canonical r.id with hsame | ⟨_, hnew⟩
      · rw [hsame] at hself hnormal ⊢
        exact .inl (hk r hr hself hnormal (hd.canonical_merge hin ▸ hsame))
      · exact .inl (mem_replacementIds.mp hnew).1

/-! ### The invariant guard -/

/-- A root step that the merge puts back into the plan. -/
def Restored (s : State) (revised : DagPlan) (r : DagStep) : Prop :=
  s.canonicalWith revised r.id = r.id ∧ r.id ∉ stepIds revised.steps ∧
    normalAt s.results r.id = false

instance (s : State) (revised : DagPlan) (r : DagStep) : Decidable (Restored s revised r) :=
  inferInstanceAs (Decidable (_ ∧ _ ∧ _))

/-- The merged steps are the steps of the revision and the restored ones. -/
theorem mem_merged_steps_iff (hd : DataInv cfg s) (hin : s.pc.inRound = true) (revised : DagPlan)
    {p : DagStep} : p ∈ (s.merge revised).plan.steps ↔ p ∈ (stepMap revised.steps).values ∨
      ∃ r ∈ s.root.steps, Restored s revised r ∧ p = rewriteDeps (s.merge revised).aliases r := by
  refine (mem_mergedSteps (hd.root_nodup hin)).trans (or_congr_right ?_)
  simp only [Restored, and_assoc, ← hd.canonical_merge hin]
  rfl

/-- What a reported violation has to be about: a contract that neither an executed nor a merged
step satisfies, or a step of the revision itself. -/
def Justified (s : State) (revised : DagPlan) : InvariantError → Prop
  | .removedOperation c =>
    (∀ step ∈ normalSteps s.hist, RequiredOperation.stepSatisfies step c.toRequiredOperation = false) ∧
      ∀ p ∈ (s.merge revised).plan.steps,
        RequiredOperation.stepSatisfies p c.toRequiredOperation = false
  | .undeclaredMutation p => p ∈ revised.steps
  | .changedKey .. => True

instance (s : State) (revised : DagPlan) : ∀ e, Decidable (Justified s revised e)
  | .removedOperation _ => inferInstanceAs (Decidable (_ ∧ _))
  | .undeclaredMutation _ => inferInstanceAs (Decidable (_ ∈ _))
  | .changedKey .. => inferInstanceAs (Decidable True)

/-- The guard blames a revision only for what it did. -/
def GuardFair (cfg : Config) (s : State) (revised : DagPlan) : Prop :=
  ∀ e ∈ validateRevisionInvariants cfg.registry s.contracts (s.merge revised).plan,
    Justified s revised e

instance (cfg : Config) (s : State) (revised : DagPlan) : Decidable (GuardFair cfg s revised) :=
  inferInstanceAs (Decidable (∀ e ∈ _, _))

/-- Every delivered contract is still satisfied by the revision or a restored step, and with
contracts present no restored step is an uncovered mutation. -/
def KeepsDelivered (cfg : Config) (s : State) (revised : DagPlan) : Prop :=
  (∀ c ∈ s.contracts, (∃ step ∈ normalSteps s.hist,
      RequiredOperation.stepSatisfies step c.toRequiredOperation = true) →
    (∃ p ∈ (stepMap revised.steps).values,
      RequiredOperation.stepSatisfies p c.toRequiredOperation = true) ∨
      ∃ r ∈ s.root.steps, Restored s revised r ∧
        RequiredOperation.stepSatisfies r c.toRequiredOperation = true) ∧
  (s.contracts ≠ [] → ∀ r ∈ s.root.steps, Restored s revised r →
    stepIsMutating cfg.registry r = true → coveredBy s.contracts r = true)

instance (cfg : Config) (s : State) (revised : DagPlan) : Decidable (KeepsDelivered cfg s revised) :=
  inferInstanceAs (Decidable (_ ∧ _))

/-- **The guard is fair exactly when** the merged plan still holds every delivered contract and
no restored step is an uncovered mutation. -/
theorem revision_guard_fair_iff (plan : DagPlan) (contracts : List DeliveryContract)
    (h : Lib.Reaches (processStep cfg) (State.fresh plan contracts) s) (hin : s.pc.inRound = true)
    (revised : DagPlan) : GuardFair cfg s revised ↔ KeepsDelivered cfg s revised := by
  have hd := (processInv_of_reaches h).data
  have hmem := fun p => mem_merged_steps_iff (p := p) hd hin revised
  constructor
  · intro hfair
    constructor
    · rintro c hc ⟨step, hstep, hsat⟩
      by_contra hno
      push Not at hno
      have hnone : ∀ p ∈ (s.merge revised).plan.steps,
          RequiredOperation.stepSatisfies p c.toRequiredOperation = false := by
        intro p hp
        rcases (hmem p).mp hp with hrev | ⟨r, hr, hres, rfl⟩
        · exact Bool.eq_false_iff.mpr (hno.1 p hrev)
        · exact Bool.eq_false_iff.mpr (hno.2 r hr hres)
      have := (hfair _ (removedOperation_mem_iff.mpr ⟨hc, hnone⟩)).1 step hstep
      rw [hsat] at this
      cases this
    · intro hne r hr hres hmut
      by_contra hcov
      have hp := (hmem _).mpr (.inr ⟨r, hr, hres, rfl⟩)
      have hrev : rewriteDeps (s.merge revised).aliases r ∈ revised.steps :=
        hfair _ (undeclaredMutation_mem_iff.mpr ⟨hne, hp, hmut, Bool.eq_false_iff.mpr hcov⟩)
      have hid := List.mem_map_of_mem (f := DagStep.id) hrev
      exact hres.2.1 hid
  · rintro ⟨hdel, hmut⟩ e he
    cases e with
    | removedOperation c =>
        obtain ⟨hc, hnone⟩ := removedOperation_mem_iff.mp he
        refine ⟨fun step hstep => Bool.eq_false_iff.mpr fun hsat => ?_, hnone⟩
        rcases hdel c hc ⟨step, hstep, hsat⟩ with ⟨p, hp, hps⟩ | ⟨r, hr, hres, hrs⟩
        · rw [hnone p ((hmem p).mpr (.inl hp))] at hps
          cases hps
        · have hp := (hmem _).mpr (.inr ⟨r, hr, hres, rfl⟩)
          have hno : RequiredOperation.stepSatisfies r c.toRequiredOperation = false :=
            hnone (rewriteDeps (s.merge revised).aliases r) hp
          rw [hrs] at hno
          cases hno
    | undeclaredMutation p =>
        obtain ⟨hne, hp, hm, hcov⟩ := undeclaredMutation_mem_iff.mp he
        rcases (hmem p).mp hp with hrev | ⟨r, hr, hres, rfl⟩
        · exact mem_of_mem_values_stepMap hrev
        · have := hmut hne r hr hres hm
          exact absurd this (Bool.eq_false_iff.mp hcov)
    | changedKey c key expected got => trivial

end merging

/-! ### Revisions that fit, and revisions that do not -/

section scenario
attribute [local instance] asciiPy

/-- The read succeeds and the copy fails. -/
def copyFails : List Choice :=
  Choice.enter "p" :: playLayer 1 [("read", answered (.obj [("content", .str "hi")]))] ++
    playLayer 1 [("copy", refused "disk full")]

/-- A replacement of the copy that still uses the read. -/
def copyAgain : DagPlan := { steps := [writeStep "copy2" "c.txt" "$read.content" ["read"]] }

/-- The replacement of a copy is accepted after the merge and rejected at the entry. -/
theorem accepted_revision_rejected_at_entry : ∃ s,
    Lib.Reaches (step fileConfig) (State.fresh copyPlan []) s ∧
    let m := s.merge copyAgain
    validate fileConfig.registry m.plan (Results.idsWith m.results StepResult.stepNormal)
      (Results.idsWith m.results StepResult.outputAvailable) = [] ∧
    validate fileConfig.registry m.plan [] [] ≠ [] := by
  obtain ⟨s, hs, hp⟩ := Lib.exists_reaches_of_run (step fileConfig) copyFails
    (State.fresh copyPlan []) (fun s =>
      let m := s.merge copyAgain
      (validate fileConfig.registry m.plan (Results.idsWith m.results StepResult.stepNormal)
        (Results.idsWith m.results StepResult.outputAvailable)).isEmpty &&
      !(validate fileConfig.registry m.plan [] []).isEmpty) (by decide +kernel)
  refine ⟨s, hs, ?_⟩
  simpa using hp

/-- A replacement that needs no other step is accepted both times. -/
theorem closed_revision_accepted_at_entry :
    let m := mergeRevisedPlan reportPlan reportPlan
      { steps := [writeStep "save2" "report.txt" "final" []] }
      (.ofPairs [("save", { stepId := "save", execState := .failed })]) (identityAliases reportPlan)
    validate fileConfig.registry m.plan [] [] = [] :=
  (entry_accepts_merged_iff fileConfig.registry reportPlan reportPlan
    { steps := [writeStep "save2" "report.txt" "final" []] }
    (.ofPairs [("save", { stepId := "save", execState := .failed })]) (identityAliases reportPlan)
    (by decide +kernel)).mpr (by decide +kernel)

/-- The write fails, its replacement is bound to it and fails as well. -/
def replacementFails : List Choice :=
  Choice.enter "p" :: playLayer 1 [("save", refused "disk full")] ++
    [Choice.revise (some { steps := [writeStep "save2" "report.txt" "final" []] }), .tick, .tick, .enter "q"] ++
    playLayer 1 [("save2", refused "disk full")]

/-- Two new steps: neither is bound to the failed write. -/
def lookAround : DagPlan := { steps := [fileStep "look" "list" "." [], fileStep "peek" "read" "log" []] }

/-- The write is lost: it has no result and is not in the merged plan. -/
theorem failed_replacement_lost : ∃ s,
    Lib.Reaches (processStep fileConfig) (State.fresh reportPlan []) s ∧ s.pc.inRound = true ∧
      plannerAccepts fileConfig s lookAround = true ∧ ¬KeepsWork s lookAround := by
  obtain ⟨s, hs, hp⟩ := Lib.exists_reaches_of_run (processStep fileConfig)
    (replacementFails.map .inner) (State.fresh reportPlan []) (fun s => s.pc.inRound &&
      plannerAccepts fileConfig s lookAround && !decide (KeepsWork s lookAround)) (by decide +kernel)
  refine ⟨s, hs, ?_⟩
  simpa [and_assoc] using hp

/-- Listing the failed replacement again keeps the work. -/
theorem relisted_replacement_kept : ∃ s, Lib.Reaches (processStep fileConfig) (State.fresh reportPlan []) s ∧
    s.pc.inRound = true ∧ KeepsWork s { steps := [writeStep "save2" "report2.txt" "final" []] } := by
  obtain ⟨s, hs, hp⟩ := Lib.exists_reaches_of_run (processStep fileConfig)
    (replacementFails.map .inner) (State.fresh reportPlan []) (fun s => s.pc.inRound &&
      decide (RelistsReplacements s { steps := [writeStep "save2" "report2.txt" "final" []] }))
    (by decide +kernel)
  rw [Bool.and_eq_true, decide_eq_true_eq] at hp
  exact ⟨s, hs, hp.1, (merge_keeps_work_iff reportPlan [] hs hp.1 _).mpr hp.2⟩

/-- Write a report, then look at the directory. -/
def reportAndLook : DagPlan :=
  { steps := [writeStep "save" "report.txt" "draft" [], fileStep "look" "list" "." ["save"]] }

/-- The report is written and the listing fails. -/
def lookFails : List Choice :=
  Choice.enter "p" :: playLayer 1 [("save", answered (.obj [("success", .bool true)]))] ++
    playLayer 1 [("look", refused "busy")]

/-- A replacement of the listing alone. -/
def lookElsewhere : DagPlan := { steps := [fileStep "look2" "list" "docs" []] }

/-- The revision is blamed for removing a write that was done before. -/
theorem delivered_contract_reported_removed : ∃ s,
    Lib.Reaches (processStep fileConfig) (State.fresh reportAndLook [reportContract]) s ∧
      s.pc.inRound = true ∧ plannerAccepts fileConfig s lookElsewhere = true ∧
      ¬GuardFair fileConfig s lookElsewhere := by
  obtain ⟨s, hs, hp⟩ := Lib.exists_reaches_of_run (processStep fileConfig) (lookFails.map .inner)
    (State.fresh reportAndLook [reportContract]) (fun s => s.pc.inRound &&
      plannerAccepts fileConfig s lookElsewhere && !decide (GuardFair fileConfig s lookElsewhere))
    (by decide +kernel)
  refine ⟨s, hs, ?_⟩
  simpa [and_assoc] using hp

/-- A revision that removes a write that is still to do is blamed for it, rightly. -/
theorem open_contract_reported_removed : ∃ s,
    Lib.Reaches (processStep fileConfig) (State.fresh reportPlan [reportContract]) s ∧
      s.pc.inRound = true ∧ invariantErrors fileConfig s lookElsewhere ≠ [] ∧
      GuardFair fileConfig s lookElsewhere := by
  obtain ⟨s, hs, hp⟩ := Lib.exists_reaches_of_run (processStep fileConfig)
    (List.map .inner (.enter "p" :: playLayer 1 [("save", refused "disk full")]))
    (State.fresh reportPlan [reportContract]) (fun s => s.pc.inRound &&
      decide (KeepsDelivered fileConfig s lookElsewhere) &&
      !(invariantErrors fileConfig s lookElsewhere).isEmpty) (by decide +kernel)
  simp only [Bool.and_eq_true, decide_eq_true_eq, Bool.not_eq_true', List.isEmpty_eq_false_iff] at hp
  obtain ⟨⟨hin, hkeeps⟩, herr⟩ := hp
  exact ⟨s, hs, hin, herr, (revision_guard_fair_iff reportPlan [reportContract] hs hin _).mpr hkeeps⟩

end scenario
end JAgent
