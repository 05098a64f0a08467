import JAgent.Scheduler.Budget
import JAgent.Scheduler.Merging
import JAgent.Scheduler.SideEffects

/-! # The announced revision and the executed plan

An accepted revision is announced by a "plan revised" event, merged into the run, and the merged
plan opens the next round with a "plan created" event.  After a failed layer the merge comes
first and the merged plan is announced.  After an unsuccessful round the event is written before
the merge, which may still put original steps back.

`Pending` follows one accepted revision to the next round, and `announced_plan_executed_iff` says
when the two events list the same steps. -/

namespace JAgent

/-! ### The two events -/

/-- What a blueprint says of a step: id, tool, input and dependencies. -/
def StepPayload.action (s : StepPayload) : String × String × Obj × List String :=
  (s.stepId, s.toolName, s.input, s.dependsOn)

/-- The step list of an announced revision. -/
def Event.revision : Event → Option (List StepPayload)
  | .planRevised _ _ _ _ steps _ => if steps.isEmpty then none else some steps
  | _ => none

/-- The revisions with steps that are announced by these events. -/
def revisions (es : List Event) : List (List StepPayload) := es.filterMap Event.revision

theorem revisions_append (es es' : List Event) : revisions (es ++ es') = revisions es ++ revisions es' :=
  List.filterMap_append

section announcing
variable [Py]

/-- The step list that is announced for a revision that `s` is about to merge. -/
def announcedSteps (s : State) (revised : DagPlan) : Site → List StepPayload
  | .layerFailure => planStepsToPayload (s.merge revised).plan
  | .notNormal => planStepsToPayload revised

/-! ### Merging -/

section merge
variable {cfg : Config} {s : State} {site : Site} {k : Round} {revised : DagPlan}

theorem merged_steps_eq (hd : DataInv cfg s) (hpc : s.pc = .merging site k revised) :
    (s.merge revised).plan.steps =
      revised.steps ++ restoredSteps s.root revised s.results (s.merge revised).aliases := by
  have hmerged : (s.merge revised).plan.steps = (stepMap revised.steps).values ++
      restoredSteps s.root revised s.results (s.merge revised).aliases := rfl
  rw [hmerged, values_stepMap (hd.revised_nodup hpc)]

/-- Nothing is restored when every original step is listed, normal or replaced. -/
theorem restoredSteps_eq_nil_iff (hd : DataInv cfg s) (hpc : s.pc = .merging site k revised) :
    restoredSteps s.root revised s.results (s.merge revised).aliases = [] ↔
      ∀ r ∈ s.root.steps, ¬Restored s revised r := by
  have hin : s.pc.inRound = true := by rw [hpc]; rfl
  unfold restoredSteps
  rw [List.map_eq_nil_iff, List.filter_eq_nil_iff, values_stepMap (hd.root_nodup hin)]
  refine forall₂_congr fun r _ => not_congr ?_
  rw [hd.canonical_merge hin]
  simp [Restored, and_assoc]

/-- **A revision announced before the merge is the merged plan if and only if nothing is restored.** -/
theorem payload_merged_iff (hd : DataInv cfg s) (hpc : s.pc = .merging site k revised) :
    (planStepsToPayload revised).map StepPayload.action =
        (planStepsToPayload (s.merge revised).plan).map StepPayload.action ↔
      ∀ r ∈ s.root.steps, ¬Restored s revised r := by
  rw [← restoredSteps_eq_nil_iff hd hpc]
  unfold planStepsToPayload
  rw [merged_steps_eq hd hpc, List.map_map, List.map_map, List.map_append, List.self_eq_append_right,
    List.map_eq_nil_iff]

theorem merged_steps_ne_nil (hd : DataInv cfg s) (hpc : s.pc = .merging site k revised) :
    (s.merge revised).plan.steps ≠ [] := by
  rw [merged_steps_eq hd hpc]
  exact List.append_ne_nil_of_left_ne_nil (hd.merging site k revised hpc).1 _

end merge

/-! ### From the acceptance to the next round -/

/-- What is announced before the merge. -/
def announcedEarly (revised : DagPlan) : Site → List (List StepPayload)
  | .layerFailure => []
  | .notNormal => [planStepsToPayload revised]

/-- Where the run stands after `s` is about to merge a revision, and what has been written since it was
accepted, as long as no round has started. -/
inductive Pending (s : State) (site : Site) (k : Round) (revised : DagPlan) : State → List Event → Prop
  | merging {t : State} {es : List Event} : t.pc = .merging site k revised → t.merge revised = s.merge revised →
      revisions es = announcedEarly revised site → Pending s site k revised t es
  | announcing {t : State} {es : List Event} : site = .layerFailure →
      t.pc = .announcing k (s.merge revised).plan → revisions es = [] → Pending s site k revised t es
  | entry {t : State} {es : List Event} : t.pc = .entry → t.plan = (s.merge revised).plan →
      revisions es = [announcedSteps s revised site] → Pending s site k revised t es
  | ended {t : State} {es : List Event} : t.pc.inRound = false → t.pc ≠ .entry →
      Pending s site k revised t es

section pending
variable {cfg : Config} {s t u : State} {site : Site} {k : Round} {revised : DagPlan} {es : List Event}
  {c : Choice}

omit [Py] in
theorem revisions_foreign {e : Event} (h : isForeign e = true) :
    revisions [e] = [] ∧ e.opensRound = false := by
  cases e <;> first | exact ⟨rfl, rfl⟩ | cases h

/-- Events of other components change nothing. -/
theorem Pending.foreign {e : Event} (h : Pending s site k revised t es) (he : isForeign e = true) :
    Pending s site k revised (t.emit [e]) (es ++ [e]) := by
  have hrev : revisions (es ++ [e]) = revisions es := by
    rw [revisions_append, (revisions_foreign he).1, List.append_nil]
  cases h with
  | merging hpc hm hes => exact .merging hpc hm (hrev.trans hes)
  | announcing hsite hpc hes => exact .announcing hsite hpc (hrev.trans hes)
  | entry hpc hplan hes => exact .entry hpc hplan (hrev.trans hes)
  | ended h1 h2 => exact .ended h1 h2

/-- The next move: the revision is still pending, or its round starts. -/
def Onwards (s : State) (site : Site) (k : Round) (revised : DagPlan) (t u : State) (es : List Event) : Prop :=
  ∃ new, u.log = t.log ++ new ∧
    ((Pending s site k revised u (es ++ new) ∧ ∀ e ∈ new, e.opensRound = false) ∨
      (revisions es = [announcedSteps s revised site] ∧ ∃ planId intent summary n,
        new = [.planCreated planId intent summary n (planStepsToPayload (s.merge revised).plan)]))

/-- A move that writes nothing. -/
theorem Onwards.still (hlog : u.log = t.log) (h : Pending s site k revised u es) :
    Onwards s site k revised t u es := by
  refine ⟨[], by rw [hlog, List.append_nil], .inl ⟨?_, by simp⟩⟩
  rw [List.append_nil]
  exact h

/-- A move that writes one event. -/
theorem Onwards.write {e : Event} (hlog : u.log = t.log ++ [e]) (h : Pending s site k revised u (es ++ [e]))
    (he : e.opensRound = false) : Onwards s site k revised t u es := by
  refine ⟨[e], hlog, .inl ⟨h, ?_⟩⟩
  intro e' he'
  rw [List.mem_singleton.mp he']
  exact he

/-- The merge. -/
theorem Onwards.mergeMove (hm : t.merge revised = s.merge revised)
    (hes : revisions es = announcedEarly revised site) (hs : MergeMove cfg t site k revised u) :
    Onwards s site k revised t u es := by
  cases hs with
  | announce hsite _ =>
      subst hsite
      refine .still rfl (.announcing rfl ?_ hes)
      rw [hm]
  | adopt hsite _ =>
      subst hsite
      refine .still rfl (.entry rfl ?_ hes)
      exact congrArg Merge.plan hm
  | reject error => exact .still rfl (.ended rfl (fun h => by cases h))

/-- The start of the next round. -/
theorem Onwards.entryMove (hplan : t.plan = (s.merge revised).plan)
    (hes : revisions es = [announcedSteps s revised site]) (hs : EntryMove cfg t c u) :
    Onwards s site k revised t u es := by
  cases hs with
  | exhausted planId _ => exact .still rfl (.ended rfl (fun h => by cases h))
  | unsorted planId _ => exact .still rfl (.ended rfl (fun h => by cases h))
  | @start planId layers _ _ _ =>
      refine ⟨_, rfl, .inr ⟨hes, planId, t.plan.intent, toString t.plan.steps.length ++ " steps in " ++
        toString layers.length ++ " layers", layers.length, ?_⟩⟩
      rw [hplan]
  | invalid planId _ => exact .write rfl (.ended rfl (fun h => by cases h)) rfl

/-- The announcement. -/
theorem Onwards.announce (hd : DataInv cfg s) (hpc : s.pc = .merging .layerFailure k revised)
    (hes : revisions es = []) :
    Onwards s .layerFailure k revised t (adopt (t.emit [planRevisedEvent .layerFailure k t.results
      (s.merge revised).plan (remaining (s.merge revised).plan)]) (s.merge revised).plan) es := by
  refine .write rfl (.entry rfl rfl ?_) rfl
  rw [revisions_append, hes]
  have hne : (planStepsToPayload (s.merge revised).plan).isEmpty = false := by
    unfold planStepsToPayload
    simp [merged_steps_ne_nil hd hpc]
  simp [revisions, planRevisedEvent, Event.revision, hne, announcedSteps]

/-- **One move after the acceptance.** -/
theorem Pending.step (h : Pending s site k revised t es) (hd : DataInv cfg s)
    (hpc : s.pc = .merging site k revised) (hs : step cfg t c = some u) : Onwards s site k revised t u es := by
  have hforeign : ∀ e, isForeign e = true → Onwards s site k revised t (t.emit [e]) es := fun e hf =>
    .write rfl (h.foreign hf) (revisions_foreign hf).2
  cases h with
  | merging ht hm hes =>
      rcases merge_cases hs ht with ⟨e, hf, rfl⟩ | hmove
      · exact hforeign e hf
      · exact .mergeMove hm hes hmove
  | announcing hsite ht hes =>
      subst hsite
      cases move_of_step hs with
      | foreign hf _ => exact hforeign _ hf
      | announce ht' =>
          rw [ht] at ht'
          cases ht'
          exact .announce hd hpc hes
      | entry ht' | layers ht' | phase ht' | repair ht' | revise ht' | merge ht' | dispose ht' | fail ht'
      | finish ht' =>
          rw [ht] at ht'
          cases ht'
  | entry ht hplan hes =>
      rcases entry_cases hs ht with ⟨e, hf, rfl⟩ | hmove
      · exact hforeign e hf
      · exact .entryMove hplan hes hmove
  | ended h1 h2 =>
      cases move_of_step hs with
      | foreign hf _ => exact hforeign _ hf
      | fail | finish => exact .write rfl (.ended rfl (fun h => by cases h)) rfl
      | entry ht => exact absurd ht h2
      | layers ht | phase ht | repair ht | revise ht | merge ht | announce ht | dispose ht =>
          rw [ht] at h1
          cases h1

/-- What is written between the acceptance and the next round. -/
theorem pending_of_reaches {base : List Event} (hd : DataInv cfg s) (hpc : s.pc = .merging site k revised)
    (hlog : s.log = base ++ es) (hes : revisions es = announcedEarly revised site)
    (h : Lib.Reaches (JAgent.step cfg) s t) :
    ∃ mid, t.log = base ++ mid ∧ (Pending s site k revised t mid ∨ ∃ e ∈ mid, e.opensRound = true) := by
  apply h.invariant (I := fun t => ∃ mid, t.log = base ++ mid ∧
    (Pending s site k revised t mid ∨ ∃ e ∈ mid, e.opensRound = true))
  · exact ⟨es, hlog, .inl (.merging hpc rfl hes)⟩
  · rintro t u c _ ⟨mid, hmid, hor⟩ hs
    rcases hor with hp | ⟨e, he, hopen⟩
    · obtain ⟨new, hnew, hnext⟩ := hp.step hd hpc hs
      refine ⟨mid ++ new, by rw [hnew, hmid, List.append_assoc], ?_⟩
      rcases hnext with ⟨hp', _⟩ | ⟨_, planId, intent, summary, n, rfl⟩
      · exact .inl hp'
      · exact .inr ⟨_, List.mem_append_right _ List.mem_cons_self, rfl⟩
    · obtain ⟨new, hnew, _⟩ := (step_trans hs).log_cases
      refine ⟨mid ++ new, by rw [hnew, hmid, List.append_assoc], .inr ⟨e, ?_, hopen⟩⟩
      exact List.mem_append_left _ he

/-- A revision that is accepted is merged, and this is what is written with it. -/
theorem accepted_log {attempt : ℕ} (hpc : s.pc = .revising site k attempt)
    (hs : JAgent.step cfg s (.revise (some revised)) = some t) (hm : t.pc.isMerging = true) :
    t.pc = .merging site k revised ∧
      ∃ es, t.log = s.log ++ es ∧ revisions es = announcedEarly revised site := by
  cases revise_move hs hpc with
  | empty =>
      rw [isMerging_settleEmptyRevised] at hm
      cases hm
  | mergeAfterFailure hsite _ _ _ _ =>
      subst hsite
      exact ⟨rfl, [], (List.append_nil _).symm, rfl⟩
  | mergeAfterLayers hsite _ _ _ hsteps =>
      subst hsite
      have hne : (planStepsToPayload revised).isEmpty = false := by
        unfold planStepsToPayload
        simpa using hsteps
      refine ⟨rfl, _, rfl, ?_⟩
      simp [revisions, planRevisedEvent, Event.revision, hne, announcedEarly]
  | retry => cases hm
  | giveUp => cases hm

end pending

/-- **When the announced plan is the executed one**: for every run, every revision with steps that
`_execute_plan` accepts, and the "plan created" event with which the next round starts, exactly one
revision is announced in between, and it lists the same steps as that event (ids, tools, inputs and
dependencies) if and only if the revision followed a failed layer, or every original step is listed by
the revision, has a normal result, or is replaced by another step. -/
theorem announced_plan_executed_iff {cfg : Config} (plan : DagPlan) (results : Results)
    (contracts : List DeliveryContract) (log : List Event) {s t u v : State}
    (h : Lib.Reaches (step cfg) (State.start plan results contracts log []) s) {site : Site} {k : Round}
    {attempt : ℕ} {revised : DagPlan} (hpc : s.pc = .revising site k attempt)
    (hacc : step cfg s (.revise (some revised)) = some t) (ht : t.pc = .merging site k revised)
    (hu : Lib.Reaches (step cfg) t u) {mid : List Event} (hmid : u.log = s.log ++ mid)
    (hfirst : ∀ e ∈ mid, e.opensRound = false) {c : Choice} (hv : step cfg u c = some v)
    {planId intent summary : String} {n : ℕ} {steps : List StepPayload}
    (hlog : v.log = u.log ++ [.planCreated planId intent summary n steps]) :
    ∃ announced, revisions mid = [announced] ∧
      (announced.map StepPayload.action = steps.map StepPayload.action ↔
        site = .layerFailure ∨ ∀ r ∈ t.root.steps, ¬Restored t revised r) := by
  have hd : DataInv cfg t := dataInv_of_reaches (h.tail hacc)
  obtain ⟨_, es, hes, hearly⟩ := accepted_log hpc hacc (by rw [ht]; rfl)
  obtain ⟨mid', hmid', hor⟩ := pending_of_reaches hd ht hes hearly hu
  obtain rfl : mid' = mid := List.append_cancel_left (hmid'.symm.trans hmid)
  rcases hor with hp | ⟨e, he, hopen⟩
  · obtain ⟨new, hnew, hnext⟩ := hp.step hd ht hv
    obtain rfl := List.append_cancel_left (hnew.symm.trans hlog)
    rcases hnext with ⟨_, hnone⟩ | ⟨hrev, planId', intent', summary', n', heq⟩
    · exact absurd (hnone _ List.mem_cons_self) (by simp [Event.opensRound])
    · cases heq
      refine ⟨_, hrev, ?_⟩
      cases site with
      | layerFailure => exact iff_of_true rfl (.inl rfl)
      | notNormal => exact (payload_merged_iff hd ht).trans (by simp)
  · rw [hfirst e he] at hopen
    cases hopen

end announcing

section samples
attribute [local instance] asciiPy

/-- Two reads in a row. -/
def readsInTurn : DagPlan :=
  { steps := [fileStep "a" "read" "a.txt" [], fileStep "b" "read" "b.txt" ["a"]] }

/-- The call succeeds, and its output is an error. -/
def doubtful : ToolExecutionResult :=
  { status := .completed, toolCallId := "call", error := some "empty", hasSemanticError := true }

/-- The first read is unsuccessful, so the second is skipped, and the planner is asked. -/
def readsInTurnFail : List Choice :=
  Choice.enter "p" :: playLayer 1 [("a", doubtful)] ++ List.replicate 8 Choice.tick

/-- A replacement of the first read. -/
def otherRead : DagPlan := { steps := [fileStep "c" "read" "c.txt" []] }

/-- The replacement together with the second read. -/
def bothReads : DagPlan :=
  { steps := [fileStep "c" "read" "c.txt" [], fileStep "b" "read" "b.txt" ["c"]] }

theorem restored_read_unannounced : ∃ s, Lib.Reaches (step fileConfig) (State.fresh readsInTurn []) s ∧
    s.log.drop 4 = [.planRevised "p" "unsuccessful_revised" "" "1 steps remaining"
        (planStepsToPayload otherRead) [],
      .planCreated "q" "" "2 steps in 2 layers" 2 (planStepsToPayload bothReads)] ∧
    (planStepsToPayload otherRead).map StepPayload.action ≠
      (planStepsToPayload bothReads).map StepPayload.action := by
  obtain ⟨s, hs, hlog⟩ := Lib.exists_reaches_of_run (step fileConfig)
    (readsInTurnFail ++ [.revise (some otherRead), .tick, .enter "q"]) (State.fresh readsInTurn [])
    (fun s => s.log.drop 4 = [.planRevised "p" "unsuccessful_revised" "" "1 steps remaining"
        (planStepsToPayload otherRead) [],
      .planCreated "q" "" "2 steps in 2 layers" 2 (planStepsToPayload bothReads)]) (by decide +kernel)
  rw [decide_eq_true_eq] at hlog
  exact ⟨s, hs, hlog, by decide⟩

/-- The event that announces both reads. -/
def bothReadsRevised : Event :=
  .planRevised "p" "unsuccessful_revised" "" "2 steps remaining" (planStepsToPayload bothReads) []

/-- The planner is asked after an unsuccessful round, and `bothReads` is accepted, merged without restoring
a step, and entered. -/
def entersBothReads (s : State) : Bool :=
  match s.pc with
  | .revising .notNormal _ _ => (step fileConfig s (.revise (some bothReads))).any fun t =>
      t.pc.isMerging && t.root.steps.all (fun r => !decide (Restored t bothReads r)) &&
        (step fileConfig t .tick).any fun u => u.log = s.log ++ [bothReadsRevised] &&
          (step fileConfig u (.enter "q")).any fun v =>
            v.log = u.log ++ [.planCreated "q" "" "2 steps in 2 layers" 2 (planStepsToPayload bothReads)]
  | _ => false

theorem relisted_read_announced : ∃ s t u v mid announced,
    Lib.Reaches (step fileConfig) (State.fresh readsInTurn []) s ∧
    step fileConfig s (.revise (some bothReads)) = some t ∧ Lib.Reaches (step fileConfig) t u ∧
    u.log = s.log ++ mid ∧ step fileConfig u (.enter "q") = some v ∧
    v.log = u.log ++ [.planCreated "q" "" "2 steps in 2 layers" 2 (planStepsToPayload bothReads)] ∧
    revisions mid = [announced] ∧
    announced.map StepPayload.action = (planStepsToPayload bothReads).map StepPayload.action := by
  obtain ⟨s, hs, hp⟩ := Lib.exists_reaches_of_run (step fileConfig) readsInTurnFail (State.fresh readsInTurn [])
    entersBothReads (by decide +kernel)
  unfold entersBothReads at hp
  split at hp
  next k attempt hpc =>
    obtain ⟨t, ht, hp⟩ := (Option.any_eq_true _ _).mp hp
    simp only [Bool.and_eq_true] at hp
    obtain ⟨⟨hm, hrest⟩, hp⟩ := hp
    obtain ⟨u, hu, hp⟩ := (Option.any_eq_true _ _).mp hp
    rw [Bool.and_eq_true, decide_eq_true_eq] at hp
    obtain ⟨hmid, hp⟩ := hp
    obtain ⟨v, hv, hlog⟩ := (Option.any_eq_true _ _).mp hp
    rw [decide_eq_true_eq] at hlog
    have hreach : Lib.Reaches (step fileConfig) t u := .tail .refl hu
    have hfirst : ∀ e ∈ [bothReadsRevised], e.opensRound = false := by decide
    obtain ⟨announced, hrev, hiff⟩ := announced_plan_executed_iff readsInTurn .empty [] [] hs hpc ht
      (accepted_log hpc ht hm).1 hreach hmid hfirst hv hlog
    refine ⟨s, t, u, v, [bothReadsRevised], announced, hs, ht, hreach, hmid, hv, hlog, hrev, hiff.mpr (.inr ?_)⟩
    simpa using hrest
  next => cases hp

end samples

end JAgent
