import JAgent.Core.PlanView
import JAgent.Scheduler.Process
import JAgent.Scheduler.Rounds

/-! # What a run shows of its plan

Each round writes its plan to the log and then marks its steps under the id of that plan, each
of them once (`Pc.shown` says which are still unmarked).  So the log of every run, with any
restarts, is orderly, and the plan that is shown agrees with the evidence for as long as the
blueprints allow it.

They allow it only while a run does not come back to a step: a second round, a revision or a
resumed run lists the whole plan again, its finished steps included, and shows them as pending
while their records stay finished (`plan_view_agrees_iff`). -/

namespace JAgent

/-! ### The steps that are not marked yet -/

/-- The steps of a layer that no event of the round has marked. -/
def Phase.unmarked (layer : List String) : Phase → List String
  | .gating _ toSkip => layer.filter fun sid => !toSkip.contains sid
  | .starting todo toSkip => todo.filter fun sid => !toSkip.contains sid
  | _ => []

/-- The id of the plan of the round, and its steps that are not marked. -/
def Pc.shown : Pc → Option (String × List String)
  | .layers k => some (k.planId, k.rest.flatten)
  | .inLayer k layer ph => some (k.planId, ph.unmarked layer ++ k.rest.flatten)
  | .repairing _ k _ | .revising _ k _ | .merging _ k _ | .announcing k _ | .disposing k _ =>
    some (k.planId, [])
  | _ => none

/-- The plan and the step that an event marks. -/
def Event.marks : Event → Option (String × String)
  | .stepStarted planId stepId _ _ | .stepCompleted planId stepId _ _ _ _
  | .stepFailed planId stepId _ _ _ _ | .stepSkipped planId stepId _ _ => some (planId, stepId)
  | _ => none

/-- The event neither changes the plan that is shown nor marks a step. -/
def Event.silent (e : Event) : Bool := !e.isBlueprint && e.marks.isNone

/-- The steps of a blueprint have ids, and none is repeated. -/
def WellListed (steps : List StepPayload) : Prop :=
  (steps.map StepPayload.stepId).Nodup ∧ ∀ s ∈ steps, s.stepId ≠ ""

theorem wellListed_of_validate [Py] {registry : Registry} {plan : DagPlan} {completed available : List String}
    (h : validate registry plan completed available = []) : WellListed (planStepsToPayload plan) := by
  have hids : (planStepsToPayload plan).map StepPayload.stepId = stepIds plan.steps := by
    unfold planStepsToPayload stepIds
    rw [List.map_map]
    rfl
  refine ⟨hids ▸ nodup_of_validate h, ?_⟩
  intro q hq
  obtain ⟨p, hp, rfl⟩ := List.mem_map.mp hq
  exact id_ne_of_validate h hp

/-! ### What one move shows -/

/-- The control point shows no more than the given plan and steps. -/
def Within (pc : Pc) (planId : String) (unmarked : List String) : Prop :=
  ∀ r, pc.shown = some r → r.1 = planId ∧ r.2.Sublist unmarked

/-- Everything a move can do to the plan that is shown. -/
inductive Shows (s t : State) : Prop
  | silent (es : List Event) : t.log = s.log ++ es → (∀ e ∈ es, e.silent = true) →
      (∀ r, t.pc.shown = some r → ∃ u, s.pc.shown = some (r.1, u) ∧ r.2.Sublist u) → Shows s t
  | enter {planId intent summary : String} {n : ℕ} {steps : List StepPayload} {unmarked : List String} :
      t.log = s.log ++ [.planCreated planId intent summary n steps] → WellListed steps →
      t.pc.shown = some (planId, unmarked) → unmarked.Nodup → unmarked ⊆ steps.map StepPayload.stepId →
      Shows s t
  | mark {planId sid : String} {unmarked : List String} {e : Event} :
      s.pc.shown = some (planId, unmarked) → t.log = s.log ++ [e] → e.marks = some (planId, sid) →
      (e.outcome = none → sid ∈ unmarked) → Within t.pc planId unmarked →
      (∀ r, t.pc.shown = some r → sid ∉ r.2) → Shows s t
  | revise {planId reason intent remaining : String} {steps : List StepPayload}
      {tasks : List (String × String)} {unmarked : List String} :
      s.pc.shown = some (planId, unmarked) →
      t.log = s.log ++ [.planRevised planId reason intent remaining steps tasks] → WellListed steps →
      Within t.pc planId [] → Shows s t

section shows
variable {s t : State}

/-- A move to a control point that shows nothing. -/
theorem Shows.leave {es : List Event} (hlog : t.log = s.log ++ es) (hes : ∀ e ∈ es, e.silent = true)
    (hpc : t.pc.shown = none) : Shows s t := by
  refine .silent es hlog hes ?_
  intro r hr
  rw [hpc] at hr
  cases hr

/-- The same without an event. -/
theorem Shows.quit (hlog : t.log = s.log) (hpc : t.pc.shown = none) : Shows s t :=
  .leave (hlog.trans (List.append_nil _).symm) (by simp) hpc

/-- A move inside a round that marks no step. -/
theorem Shows.stay {es : List Event} {planId : String} {u u' : List String}
    (hlog : t.log = s.log ++ es) (hes : ∀ e ∈ es, e.silent = true)
    (hs : s.pc.shown = some (planId, u)) (ht : t.pc.shown = some (planId, u')) (hsub : u'.Sublist u) :
    Shows s t := by
  refine .silent es hlog hes ?_
  intro r hr
  rw [ht] at hr
  cases hr
  exact ⟨u, hs, hsub⟩

/-- The same without an event. -/
theorem Shows.keep {planId : String} {u u' : List String} (hlog : t.log = s.log)
    (hs : s.pc.shown = some (planId, u)) (ht : t.pc.shown = some (planId, u')) (hsub : u'.Sublist u) :
    Shows s t := .stay (hlog.trans (List.append_nil _).symm) (by simp) hs ht hsub

variable {k : Round} {layer : List String} {ph ph' : Phase}

/-- The steps of a layer are in no later layer. -/
theorem not_mem_rest (hl : InLayer s k layer ph) {sid : String} (h : sid ∈ layer) :
    sid ∉ k.rest.flatten := by
  obtain ⟨external, hsort⟩ := hl.sorted
  have hn := nodup_flatten_of_topologicalSort hsort
  rw [List.flatten_append, List.flatten_cons, List.nodup_append] at hn
  intro hrest
  exact (List.nodup_append.mp hn.2.1).2.2 sid h sid hrest rfl

/-- A move inside a layer that marks no step. -/
theorem Shows.phase {es : List Event} (hpc : s.pc = .inLayer k layer ph) (hlog : t.log = s.log ++ es)
    (hes : ∀ e ∈ es, e.silent = true) (hpc' : t.pc = .inLayer k layer ph')
    (hsub : (ph'.unmarked layer).Sublist (ph.unmarked layer)) : Shows s t := by
  refine .stay hlog hes (by rw [hpc]; rfl) (by rw [hpc']; rfl) ?_
  exact hsub.append (List.Sublist.refl _)

/-- A move inside a layer that writes nothing. -/
theorem Shows.phaseStill (hpc : s.pc = .inLayer k layer ph) (hlog : t.log = s.log)
    (hpc' : t.pc = .inLayer k layer ph') (hsub : (ph'.unmarked layer).Sublist (ph.unmarked layer)) :
    Shows s t :=
  .keep hlog (by rw [hpc]; rfl) (by rw [hpc']; rfl) (hsub.append (List.Sublist.refl _))

/-- A move inside a layer that marks a step of it. -/
theorem Shows.phaseMark {sid : String} {e : Event} (hpc : s.pc = .inLayer k layer ph)
    (hlog : t.log = s.log ++ [e]) (he : e.marks = some (k.planId, sid))
    (hrest : sid ∉ k.rest.flatten) (hstart : e.outcome = none → sid ∈ ph.unmarked layer)
    (hpc' : t.pc = .inLayer k layer ph') (hsub : (ph'.unmarked layer).Sublist (ph.unmarked layer))
    (hnot : sid ∉ ph'.unmarked layer) : Shows s t := by
  have hshown : t.pc.shown = some (k.planId, ph'.unmarked layer ++ k.rest.flatten) := by rw [hpc']; rfl
  refine .mark (by rw [hpc]; rfl)
    hlog he (fun ho => List.mem_append_left _ (hstart ho)) ?_ ?_
  · intro r hr
    rw [hshown] at hr
    cases hr
    exact ⟨rfl, hsub.append (List.Sublist.refl _)⟩
  · intro r hr
    rw [hshown] at hr
    cases hr
    rw [List.mem_append, not_or]
    exact ⟨hnot, hrest⟩

variable [Py] {cfg : Config} {c : Choice} {site : Site}

theorem healPc_shown : (healPc cfg s site k).shown = some (k.planId, []) := by
  unfold healPc
  split_ifs <;> rfl

/-- The end of a layer. -/
theorem Shows.afterLayer {ok : Bool} (hpc : s.pc = .inLayer k layer ph) (hover : LayerOver ph) :
    Shows s { s with pc := JAgent.afterLayer cfg s k layer ok } := by
  have hs : s.pc.shown = some (k.planId, k.rest.flatten) := by
    rw [hpc]
    cases hover <;> rfl
  unfold JAgent.afterLayer
  split_ifs
  · exact .keep rfl hs rfl (List.Sublist.refl _)
  · exact .keep rfl hs healPc_shown (List.nil_sublist _)

/-- Launching a step writes nothing. -/
theorem Shows.launch {sid : String} {onCall : DagStep → Phase} {onReturn : StepResult → Phase}
    (hpc : s.pc = .inLayer k layer ph)
    (hcall : ∀ step, ((onCall step).unmarked layer).Sublist (ph.unmarked layer))
    (hret : ∀ r, ((onReturn r).unmarked layer).Sublist (ph.unmarked layer)) :
    Shows s (JAgent.launch cfg s sid (fun step => .inLayer k layer (onCall step))
      fun r => .inLayer k layer (onReturn r)) := by
  unfold JAgent.launch
  split
  · exact .phaseStill hpc rfl rfl (hret _)
  · exact .phaseStill hpc rfl rfl (hcall _)

omit [Py] in
/-- The event of a settled step marks it. -/
theorem settle_marks {planId toolName sid : String} {layerIdx : ℕ} {raw : Raw} {e : Event}
    (h : (settle planId layerIdx toolName sid raw).event = some e) :
    e.marks = some (planId, sid) ∧ e.outcome ≠ none := by
  unfold settle at h
  split at h
  · cases h
    exact ⟨rfl, by simp [Event.outcome]⟩
  · split at h
    · cases h
      exact ⟨rfl, by simp [Event.outcome]⟩
    · cases h
      exact ⟨rfl, by simp [Event.outcome]⟩
    · cases h
      exact ⟨rfl, by simp [Event.outcome]⟩
    · split at h
      · cases h
      · split_ifs at h
        · cases h
          exact ⟨rfl, by simp [Event.outcome]⟩
        · cases h
          exact ⟨rfl, by simp [Event.outcome]⟩

/-- **One move inside a layer marks a step of it once.** -/
theorem PhaseStep.shows (hl : InLayer s k layer ph) (hn : (ph.unmarked layer ++ k.rest.flatten).Nodup)
    (hpc : s.pc = .inLayer k layer ph) (h : PhaseStep cfg s k layer ph c t) : Shows s t := by
  cases h with
  | startDone toSkip => exact .phaseStill hpc rfl rfl (List.nil_sublist _)
  | startPass todo _ => exact .phaseStill hpc rfl rfl ((List.sublist_cons_self _ _).filter _)
  | gateSkip todo toSkip _ _ =>
      have hsid := hl.ungated List.mem_cons_self
      refine .phaseMark hpc rfl rfl (not_mem_rest hl hsid) (by simp [Event.outcome]) rfl ?_ ?_
      · apply List.monotone_filter_right
        intro x hx
        simp_all
      · simp [Phase.unmarked]
  | @start sid todo toSkip step hskip hstep =>
      have hun : (Phase.starting (sid :: todo) toSkip).unmarked layer =
          sid :: (Phase.starting todo toSkip).unmarked layer := by
        simp only [Phase.unmarked]
        rw [List.filter_cons_of_pos (by simpa using hskip)]
      rw [hun, List.cons_append, List.nodup_cons, List.mem_append, not_or] at hn
      refine .phaseMark hpc rfl rfl hn.1.2 (fun _ => ?_) rfl ((List.sublist_cons_self _ _).filter _) hn.1.1
      rw [hun]
      exact List.mem_cons_self
  | call | resume => exact .launch hpc (fun _ => List.Sublist.refl _) fun _ => List.Sublist.refl _
  | settled failed => exact .afterLayer hpc (.settled failed)
  | confirmed retries => exact .afterLayer hpc (.confirmed retries)
  | settle sid raw todo pending failed =>
      have hsid : sid ∈ layer := by
        apply hl.live.subset
        simp [Phase.live]
      cases hev : (JAgent.settle k.planId k.done.length (stepOr s.plan sid).tool sid raw).event with
      | none =>
          refine .phaseStill hpc ?_ rfl (List.Sublist.refl _)
          simp [settleState, State.emit, State.observe, hev]
      | some e =>
          obtain ⟨hmarks, hout⟩ := settle_marks hev
          refine .phaseMark hpc ?_ hmarks (not_mem_rest hl hsid) (fun ho => absurd ho hout) rfl
            (List.Sublist.refl _) List.not_mem_nil
          simp [settleState, State.emit, State.observe, hev]
  | pause =>
      refine .phase hpc rfl ?_ rfl (List.Sublist.refl _)
      intro e he
      rw [List.mem_singleton.mp he]
      rfl
  | settleRetry =>
      have hsid := hl.live.subset List.mem_cons_self
      refine .phaseMark hpc rfl ?_ (not_mem_rest hl hsid) (fun ho => ?_) rfl (List.Sublist.refl _)
        List.not_mem_nil
      · split_ifs <;> rfl
      · exfalso
        revert ho
        split_ifs <;> simp [Event.outcome]
  | giveUp | cancelConfirming | cancelPaused | timeout | retryError => exact .quit rfl rfl
  | gateDone | gatePass | ret | retError | gather | suspend | retryRet | again =>
      exact .phaseStill hpc rfl rfl (List.Sublist.refl _)

theorem EntryMove.shows (h : EntryMove cfg s c t) : Shows s t := by
  cases h with
  | exhausted planId _ => exact .quit rfl rfl
  | unsorted planId _ => exact .quit rfl rfl
  | start planId _ hv hsort =>
      refine .enter rfl (wellListed_of_validate hv) rfl (nodup_flatten_of_topologicalSort hsort) ?_
      intro sid hsid
      obtain ⟨l, hl, hmem⟩ := List.mem_flatten.mp hsid
      obtain ⟨p, hp, rfl⟩ := List.mem_map.mp (mem_of_topologicalSort hsort hl hmem).1
      rw [planStepsToPayload, List.map_map]
      exact List.mem_map.mpr ⟨p, hp, rfl⟩
  | invalid planId _ =>
      refine .leave rfl ?_ rfl
      intro e he
      rw [List.mem_singleton.mp he]
      rfl

theorem finishLayers_shown : (finishLayers cfg s k).shown = some (k.planId, []) := by
  unfold finishLayers
  simp only
  split_ifs
  · exact healPc_shown
  · rfl

theorem LayersMove.shows (hpc : s.pc = .layers k) (h : LayersMove cfg s k c t) : Shows s t := by
  have hshown : s.pc.shown = some (k.planId, k.rest.flatten) := by rw [hpc]; rfl
  cases h with
  | finish _ => exact .keep rfl hshown finishLayers_shown (List.nil_sublist _)
  | next hrest =>
      refine .keep rfl hshown rfl ?_
      rw [hrest, List.flatten_cons]
      exact (List.filter_sublist).append (List.Sublist.refl _)
  | cancel _ => exact .quit rfl rfl

omit [Py] in
/-- A move between control points after the layers. -/
theorem Shows.after {es : List Event} (hs : s.pc.shown = some (k.planId, [])) (hlog : t.log = s.log ++ es)
    (hes : ∀ e ∈ es, e.silent = true) (ht : t.pc.shown = some (k.planId, []) ∨ t.pc.shown = none) :
    Shows s t := by
  rcases ht with ht | ht
  · exact .stay hlog hes hs ht (List.Sublist.refl _)
  · exact .leave hlog hes ht

omit [Py] in
/-- The same without an event. -/
theorem Shows.afterStill (hs : s.pc.shown = some (k.planId, [])) (hlog : t.log = s.log)
    (ht : t.pc.shown = some (k.planId, []) ∨ t.pc.shown = none) : Shows s t :=
  .after hs (hlog.trans (List.append_nil _).symm) (by simp) ht

theorem RepairMove.shows {candidates : List DagStep} (hpc : s.pc = .repairing site k candidates)
    (h : RepairMove cfg s site k candidates c t) : Shows s t := by
  have hshown : s.pc.shown = some (k.planId, []) := by rw [hpc]; rfl
  cases h with
  | none => exact .afterStill hshown rfl (.inl rfl)
  | spent rest _ => exact .afterStill hshown rfl (.inl rfl)
  | reject =>
      refine .after hshown rfl ?_ (.inl rfl)
      simp [repairStarted, repairCompleted, Event.silent, Event.isBlueprint, Event.marks]
  | accept rest _ =>
      refine .leave rfl ?_ rfl
      simp [repairStarted, repairCompleted, Event.silent, Event.isBlueprint, Event.marks]

omit [Py] in
/-- The revision that is written down. -/
theorem Shows.revision {results : Results} {revised : DagPlan} {summary : String}
    (hs : s.pc.shown = some (k.planId, []))
    (hlog : t.log = s.log ++ [planRevisedEvent site k results revised summary])
    (hw : WellListed (planStepsToPayload revised))
    (ht : t.pc.shown = some (k.planId, []) ∨ t.pc.shown = none) : Shows s t := by
  refine .revise hs hlog hw ?_
  intro r hr
  rcases ht with ht | ht
  · rw [ht] at hr
    cases hr
    exact ⟨rfl, List.Sublist.refl _⟩
  · rw [ht] at hr
    cases hr

theorem wellListed_of_plannerAccepts {revised : DagPlan} (h : plannerAccepts cfg s revised = true) :
    WellListed (planStepsToPayload revised) := by
  unfold plannerAccepts at h
  rw [Bool.or_eq_true, List.isEmpty_iff, List.isEmpty_iff] at h
  rcases h with h | h
  · unfold planStepsToPayload
    rw [h]
    exact ⟨List.nodup_nil, by simp⟩
  · exact wellListed_of_validate h

theorem ReviseMove.shows {attempt : ℕ} (hpc : s.pc = .revising site k attempt)
    (h : ReviseMove cfg s site k attempt c t) : Shows s t := by
  have hshown : s.pc.shown = some (k.planId, []) := by rw [hpc]; rfl
  cases h with
  | noneAfterFailure _ => exact .afterStill hshown rfl (.inr rfl)
  | noneAfterLayers _ => exact .afterStill hshown rfl (.inl rfl)
  | @empty revised hacc _ =>
      have hw := wellListed_of_plannerAccepts hacc
      unfold settleEmptyRevised
      by_cases hfailed : revised.failed = true
      · rw [if_pos hfailed]
        exact .revision hshown rfl hw (.inr rfl)
      · rw [if_neg hfailed]
        exact .revision hshown rfl hw (.inl rfl)
  | mergeAfterFailure => exact .afterStill hshown rfl (.inl rfl)
  | mergeAfterLayers _ hacc _ _ _ =>
      exact .revision hshown rfl (wellListed_of_plannerAccepts hacc) (.inl rfl)
  | retry revised _ => exact .afterStill hshown rfl (.inl rfl)
  | giveUp revised error _ => exact .afterStill hshown rfl (.inr rfl)

/-- A merged plan that is announced has passed the guardrail. -/
def Vetted (cfg : Config) (s : State) : Prop :=
  ∀ k merged, s.pc = .announcing k merged → ∃ completed available,
    validate cfg.registry merged completed available = []

theorem MergeMove.shows {revised : DagPlan} (hpc : s.pc = .merging site k revised)
    (h : MergeMove cfg s site k revised t) : Shows s t := by
  have hshown : s.pc.shown = some (k.planId, []) := by rw [hpc]; rfl
  cases h with
  | announce _ _ => exact .afterStill hshown rfl (.inl rfl)
  | adopt _ _ => exact .afterStill hshown rfl (.inr rfl)
  | reject error => exact .afterStill hshown rfl (.inr rfl)

theorem MergeMove.vetted {revised : DagPlan} (h : MergeMove cfg s site k revised t) : Vetted cfg t := by
  intro k' merged hpc
  cases h with
  | announce _ hv =>
      cases hpc
      exact ⟨_, _, hv⟩
  | adopt _ _ => cases hpc
  | reject error => cases hpc

omit [Py] in
theorem DisposeMove.shows {verdict : CompletionVerdict} (hpc : s.pc = .disposing k verdict)
    (h : DisposeMove s k t) : Shows s t := by
  have hshown : s.pc.shown = some (k.planId, []) := by rw [hpc]; rfl
  cases h with
  | fail | complete =>
      refine .after hshown rfl ?_ (.inr rfl)
      intro e he
      rw [List.mem_singleton.mp he]
      rfl

/-- Only a merge leads to an announcement. -/
theorem announcing_of_trans {merged : DagPlan} (ht : Trans cfg s c t) (hpc : t.pc = .announcing k merged) :
    s.pc = .announcing k merged ∨ ∃ site k' revised, s.pc = .merging site k' revised := by
  cases ht with
  | quiet hp _ _ =>
      simp only at hpc
      subst hpc
      cases hp
  | foreign _ => exact .inl hpc
  | accept _ _ _ hpc' =>
      simp only at hpc
      subst hpc
      rcases hpc' with hp | ⟨_, site, k', he⟩
      · cases hp
      · cases he
  | mergeAnnounce hm => exact .inr ⟨_, _, _, hm⟩
  | _ => cases hpc

theorem Vetted.step (h : Vetted cfg s) (hs : step cfg s c = some t) : Vetted cfg t := by
  intro k merged hpc
  rcases announcing_of_trans (step_trans hs) hpc with hsame | ⟨site, k', revised, hm⟩
  · exact h k merged hsame
  · rcases merge_cases hs hm with ⟨e, _, rfl⟩ | hmove
    · rw [show (s.emit [e]).pc = s.pc from rfl, hm] at hpc
      cases hpc
    · exact hmove.vetted k merged hpc

/-- **Everything a move of the scheduler shows.** -/
theorem step_shows (hr : RoundInv s) (ha : Vetted cfg s)
    (hn : ∀ r, s.pc.shown = some r → r.2.Nodup) (hs : step cfg s c = some t) : Shows s t := by
  cases move_of_step hs with
  | @foreign e hf _ =>
      refine .silent [e] rfl ?_ fun r hr => ⟨r.2, hr, List.Sublist.refl _⟩
      intro e' he'
      rw [List.mem_singleton.mp he']
      cases e <;> first | rfl | cases hf
  | entry _ hm => exact hm.shows
  | layers hpc hm => exact hm.shows hpc
  | phase hpc hm => exact hm.shows (hr.inLayer _ _ _ hpc) (hn _ (by rw [hpc]; rfl)) hpc
  | repair hpc hm => exact hm.shows hpc
  | revise hpc hm => exact hm.shows hpc
  | merge hpc hm => exact hm.shows hpc
  | @announce k merged hpc =>
      obtain ⟨completed, available, hv⟩ := ha k merged hpc
      exact .revision (k := k) (by rw [hpc]; rfl) rfl (wellListed_of_validate hv) (.inr rfl)
  | dispose hpc hm => exact hm.shows hpc
  | fail | finish =>
      refine .leave rfl ?_ rfl
      intro e he
      rw [List.mem_singleton.mp he]
      rfl

end shows

/-! ### The log of a run is orderly -/

/-- The log is orderly, and the plan of the round is shown with its unmarked steps pending. -/
structure ViewInv (s : State) : Prop where
  orderly : OrderlyLog s.log
  shown : ∀ planId unmarked, s.pc.shown = some (planId, unmarked) → unmarked.Nodup ∧
    ∃ v, foldView s.log = some v ∧ v.planId = planId ∧ ∀ sid ∈ unmarked, (sid, .pending) ∈ v.steps

theorem Event.orderly_of_silent {e : Event} (h : e.silent = true) (view : Option PlanView) :
    e.orderly view ∧ viewAfter view e = view := by
  cases e <;> first | exact ⟨trivial, rfl⟩ | cases h

theorem ViewInv.silent {es : List Event} : ∀ {log : List Event}, OrderlyLog log →
    (∀ e ∈ es, e.silent = true) → OrderlyLog (log ++ es) ∧ foldView (log ++ es) = foldView log := by
  induction es with
  | nil =>
      intro log h _
      rw [List.append_nil]
      exact ⟨h, rfl⟩
  | cons e es ih =>
      intro log h hes
      obtain ⟨ho, hv⟩ := Event.orderly_of_silent (hes e List.mem_cons_self) (foldView log)
      obtain ⟨h1, h2⟩ := ih (h.append ho) fun e' he' => hes e' (List.mem_cons_of_mem _ he')
      rw [List.append_cons]
      refine ⟨h1, ?_⟩
      rw [h2, foldView_append, hv]

/-- The event that marks a step. -/
theorem Event.orderly_of_marks {e : Event} {planId sid : String} {v : PlanView}
    (h : e.marks = some (planId, sid)) (hid : v.planId = planId)
    (hstart : e.outcome = none → (sid, .pending) ∈ v.steps) :
    e.orderly (some v) ∧ ∃ f, viewAfter (some v) e = some { v with steps := markStep sid f v.steps } := by
  have hmark : ∀ f, (some v).map (PlanView.mark planId sid f) =
      some { v with steps := markStep sid f v.steps } := by
    intro f
    rw [Option.map_some, PlanView.mark, if_pos hid]
  cases e with
  | stepStarted =>
      cases h
      exact ⟨⟨v, rfl, hid, hstart rfl⟩, _, hmark _⟩
  | stepCompleted | stepFailed | stepSkipped =>
      cases h
      exact ⟨⟨v, rfl, hid⟩, _, hmark _⟩
  | _ => cases h

section runs
variable {s t : State}

/-- **One move keeps the log orderly and the unmarked steps pending.** -/
theorem ViewInv.shows (h : ViewInv s) (hs : Shows s t) : ViewInv t := by
  cases hs with
  | silent es hlog hes hpc =>
      obtain ⟨ho, hv⟩ := ViewInv.silent h.orderly hes
      rw [← hlog] at ho hv
      refine ⟨ho, fun planId u hu => ?_⟩
      obtain ⟨u₀, hs, hsub⟩ := hpc _ hu
      obtain ⟨hn, v, hfold, hid, hpend⟩ := h.shown _ _ hs
      exact ⟨hsub.nodup hn, v, by rw [hv, hfold], hid, fun sid hsid => hpend sid (hsub.subset hsid)⟩
  | @enter planId intent summary n steps unmarked hlog hw hpc hn hsub =>
      refine ⟨by rw [hlog]; exact h.orderly.append hw, fun planId' u hu => ?_⟩
      rw [hpc] at hu
      cases hu
      refine ⟨hn, blueprintView planId steps, by rw [hlog, foldView_append]; rfl, rfl, fun sid hsid => ?_⟩
      obtain ⟨p, hp, rfl⟩ := List.mem_map.mp (hsub hsid)
      exact List.mem_map.mpr ⟨p, hp, rfl⟩
  | @mark planId sid unmarked e hpc hlog hmarks hstart hwithin hnot =>
      obtain ⟨hn, v, hfold, hid, hpend⟩ := h.shown _ _ hpc
      obtain ⟨ho, f, hafter⟩ := Event.orderly_of_marks hmarks hid fun hout => hpend sid (hstart hout)
      rw [← hfold] at ho hafter
      refine ⟨by rw [hlog]; exact h.orderly.append ho, fun planId' u hu => ?_⟩
      obtain ⟨hid', hsub⟩ := hwithin _ hu
      refine ⟨hsub.nodup hn, { v with steps := markStep sid f v.steps },
        by rw [hlog, foldView_append, hafter], hid.trans hid'.symm, fun x hx => ?_⟩
      have hne : x ≠ sid := by
        rintro rfl
        exact hnot _ hu hx
      exact mem_markStep_of_ne hne (hpend x (hsub.subset hx))
  | @revise planId reason intent remaining steps tasks unmarked hpc hlog hw hwithin =>
      obtain ⟨hn, v, hfold, hid, hpend⟩ := h.shown _ _ hpc
      have ho : (Event.planRevised planId reason intent remaining steps tasks).orderly (foldView s.log) :=
        ⟨⟨v, hfold, hid⟩, hw⟩
      refine ⟨by rw [hlog]; exact h.orderly.append ho, fun planId' u hu => ?_⟩
      obtain ⟨hid', hsub⟩ := hwithin _ hu
      have hu' : u = [] := List.sublist_nil.mp hsub
      subst hu'
      have hplan : (v.revise planId steps).planId = planId' := by
        unfold PlanView.revise
        split_ifs
        · exact hid'.symm
        · exact hid.trans hid'.symm
      refine ⟨List.nodup_nil, v.revise planId steps, ?_, hplan, by simp⟩
      rw [hlog, foldView_append, hfold]
      rfl

theorem viewInv_start (plan : DagPlan) (results : Results) (contracts : List DeliveryContract)
    {log : List Event} (hist : List Obs) (h : OrderlyLog log) :
    ViewInv (State.start plan results contracts log hist) :=
  ⟨h, fun planId u hu => by cases hu⟩

variable [Py] {cfg : Config}

/-- **Every run, with any restarts, writes an orderly log.** -/
theorem viewInv_of_reaches {plan : DagPlan} {contracts : List DeliveryContract}
    (h : Lib.Reaches (processStep cfg) (State.fresh plan contracts) s) :
    ViewInv s ∧ RoundInv s ∧ Vetted cfg s := by
  apply h.invariant
  · refine ⟨viewInv_start _ _ _ _ orderly_nil, RoundInv.start .., ?_⟩
    intro k merged hpc
    cases hpc
  intro t u m _ hi hs
  obtain ⟨hv, hr, ha⟩ := hi
  cases m with
  | inner c =>
      have hn : ∀ r, t.pc.shown = some r → r.2.Nodup := fun r hr => (hv.shown r.1 r.2 hr).1
      exact ⟨hv.shows (step_shows hr ha hn hs), hr.trans (step_trans hs), ha.step hs⟩
  | restart plan' =>
      cases hs
      refine ⟨viewInv_start _ _ _ _ hv.orderly, RoundInv.start .., ?_⟩
      intro k merged hpc
      cases hpc

/-- **When the plan that is shown agrees with the evidence**: for every run, with any restarts, and
every way its events are stored, the status of each step of `latest_plan` agrees with its evidence
after every event if and only if every plan and every revision that is written down lists only steps
that have no recorded state but PENDING, or that it reopens: unfinished ones that get another tool. -/
theorem plan_view_agrees_iff (plan : DagPlan) (contracts : List DeliveryContract)
    (h : Lib.Reaches (processStep cfg) (State.fresh plan contracts) s) (runId : String)
    {payloads : List Payload} (hp : List.Forall₂ StoredAs s.log payloads) :
    ShownAgrees runId payloads ↔
      ∀ pre e, pre ++ [e] <+: s.log → listsPending (foldEvidence pre) e = true := by
  rw [shownAgrees_iff hp]
  exact agree_iff_of_orderly (viewInv_of_reaches h).1.orderly

end runs

section samples
attribute [local instance] asciiPy

def readOncePlan : DagPlan := { steps := [fileStep "a" "read" "a.txt" []] }

/-- One round: the only step is done. -/
def readMoves : List Move :=
  (Choice.enter "p" :: playLayer 1 [("a", answered (.str "text"))] ++
    List.replicate 3 Choice.tick).map .inner

/-- The events of the round. -/
def readEvents : List Event :=
  [.planCreated "p" "" "1 steps in 1 layers" 1 (planStepsToPayload readOncePlan),
    .stepStarted "p" "a" "file_op" [],
    .stepCompleted "p" "a" "text" .completed none (some "call"),
    .planCompleted "p" 1 1 "Completed 1/1 root steps",
    .runCompleted true]

theorem single_round_shown : ∃ s, Lib.Reaches (processStep fileConfig) (State.fresh readOncePlan []) s ∧
    s.log = readEvents ∧ ShownAgrees "r" (s.log.map Event.payload) := by
  obtain ⟨s, hs, hlog⟩ := Lib.exists_reaches_of_run (processStep fileConfig) readMoves
    (State.fresh readOncePlan []) (fun s => s.log = readEvents) (by decide +kernel)
  rw [decide_eq_true_eq] at hlog
  refine ⟨s, hs, hlog, ?_⟩
  rw [plan_view_agrees_iff readOncePlan [] hs "r" (forall₂_storedAs_payload s.log), hlog]
  rintro pre e ⟨post, hpre⟩
  cases pre with
  | nil =>
      obtain ⟨rfl, _⟩ := List.cons.inj hpre
      decide
  | cons d pre =>
      -- every later event is about a step or the end
      have hmem : e ∈ readEvents.tail := by
        rw [← hpre]
        simp
      simp only [readEvents, List.tail_cons, List.mem_cons, List.not_mem_nil, or_false] at hmem
      rcases hmem with rfl | rfl | rfl | rfl <;> rfl

def copyOncePlan : DagPlan :=
  { steps := [fileStep "a" "read" "a.txt" [], fileStep "b" "read" "b.txt" ["a"]] }

/-- The first step is done and the second fails; the revision lists the done step again. -/
def revisedMoves : List Move :=
  (Choice.enter "p" :: playLayer 1 [("a", answered (.str "text"))] ++
    playLayer 1 [("b", refused "no such file")] ++
    [Choice.revise (some { steps := [fileStep "a" "read" "a.txt" [], fileStep "c" "read" "c.txt" ["a"]] }),
      .tick, .tick]).map .inner

/-- The step is done, and the plan shows it without a status. -/
def shownPending (stepId : String) (s : State) : Bool :=
  match foldLog "r" (s.log.map Event.payload) with
  | .ok st => !st.viewAgrees && (st.stepEvidence.get? stepId).any fun ev => ev.execState = "completed"
  | .error _ => false

theorem done_step_shown_pending : ∃ s, Lib.Reaches (processStep fileConfig) (State.fresh copyOncePlan []) s ∧
    shownPending "a" s = true ∧ ¬ShownAgrees "r" (s.log.map Event.payload) := by
  obtain ⟨s, hs, hshown⟩ := Lib.exists_reaches_of_run (processStep fileConfig) revisedMoves
    (State.fresh copyOncePlan []) (fun s => shownPending "a" s && 0 < s.log.length) (by decide +kernel)
  rw [Bool.and_eq_true, decide_eq_true_eq] at hshown
  refine ⟨s, hs, hshown.1, ?_⟩
  intro hall
  have hlen : (s.log.map Event.payload).length = s.log.length := List.length_map _
  obtain ⟨st, hst, hagree⟩ := hall _ (hlen ▸ hshown.2) (le_refl _)
  rw [List.take_length] at hst
  have hnot := hshown.1
  simp only [shownPending, hst, hagree, Bool.not_true, Bool.false_and] at hnot
  cases hnot

end samples

end JAgent
