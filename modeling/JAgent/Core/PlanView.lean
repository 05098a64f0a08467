import JAgent.Core.Fold
import JAgent.Core.Status

/-! # The plan that is shown and the evidence

`fold_events` keeps two projections of the plan events side by side.  `latest_plan` is what the
replay and the diff show: it is rebuilt from each blueprint and its steps are marked by the events
that carry its plan id.  `step_evidence` is what the scheduler trusts: it is keyed by step id, and
a blueprint does not regress a finished step.

`foldView` is the first of them on the events of the scheduler, as `foldEvidence` is the second,
and `foldLog_refines` shows that the fold of the stored payloads computes both.  In an orderly log,
where steps are marked under the id of the plan that is shown and are started once, the two agree
as long as no blueprint lists a step whose recorded state it keeps
(`agree_iff_of_orderly`). -/

namespace JAgent

/-! ### The view -/

/-- `latest_plan`, as far as it says how the steps stand. -/
structure PlanView where
  planId : String
  steps : List (String × ExecState)
deriving DecidableEq

/-- Set the state of the first step with this id, or list it. -/
def markStep (stepId : String) (e : ExecState) : List (String × ExecState) → List (String × ExecState)
  | [] => [(stepId, e)]
  | p :: rest => if p.1 = stepId then (stepId, e) :: rest else p :: markStep stepId e rest

/-- An event of a step changes the view of its own plan only. -/
def PlanView.mark (planId stepId : String) (e : ExecState) (v : PlanView) : PlanView :=
  if v.planId = planId then { v with steps := markStep stepId e v.steps } else v

/-- A blueprint says nothing about how its steps stand. -/
def blueprintView (planId : String) (steps : List StepPayload) : PlanView :=
  ⟨planId, steps.map fun s => (s.stepId, .pending)⟩

/-- A revision replaces the steps of its own plan, unless it has none. -/
def PlanView.revise (planId : String) (steps : List StepPayload) (v : PlanView) : PlanView :=
  if v.planId = planId && !steps.isEmpty then blueprintView planId steps else v

/-- The effect of one event on the view. -/
def viewAfter (view : Option PlanView) : Event → Option PlanView
  | .planCreated planId _ _ _ steps => some (blueprintView planId steps)
  | .planRevised planId _ _ _ steps _ => view.map (PlanView.revise planId steps)
  | .stepStarted planId stepId _ _ => view.map (PlanView.mark planId stepId .running)
  | .stepCompleted planId stepId _ status _ _ => view.map (PlanView.mark planId stepId status)
  | .stepFailed planId stepId _ _ _ _ => view.map (PlanView.mark planId stepId .failed)
  | .stepSkipped planId stepId _ _ => view.map (PlanView.mark planId stepId .skipped)
  | _ => view

/-- The view after a log. -/
def foldView (log : List Event) : Option PlanView := log.foldl viewAfter none

@[simp] theorem foldView_nil : foldView [] = none := rfl

@[simp] theorem foldView_append (log : List Event) (e : Event) :
    foldView (log ++ [e]) = viewAfter (foldView log) e := by
  unfold foldView
  rw [List.foldl_append]
  rfl

section mark
variable {stepId sid : String} {e f : ExecState}

theorem mem_markStep_self (stepId : String) (e : ExecState) : ∀ l : List (String × ExecState),
    (stepId, e) ∈ markStep stepId e l
  | [] => List.mem_cons_self
  | p :: rest => by
      unfold markStep
      split_ifs
      · exact List.mem_cons_self
      · exact List.mem_cons_of_mem _ (mem_markStep_self stepId e rest)

theorem mem_markStep_of_ne (hne : sid ≠ stepId) : ∀ {l : List (String × ExecState)},
    (sid, f) ∈ l → (sid, f) ∈ markStep stepId e l
  | p :: rest, h => by
      unfold markStep
      rcases List.mem_cons.mp h with rfl | h
      · rw [if_neg hne]
        exact List.mem_cons_self
      · split_ifs
        · exact List.mem_cons_of_mem _ h
        · exact List.mem_cons_of_mem _ (mem_markStep_of_ne hne h)

/-- The ids that are listed afterwards. -/
theorem map_fst_markStep (stepId : String) (e : ExecState) : ∀ l : List (String × ExecState),
    (markStep stepId e l).map Prod.fst =
      if stepId ∈ l.map Prod.fst then l.map Prod.fst else l.map Prod.fst ++ [stepId]
  | [] => rfl
  | p :: rest => by
      unfold markStep
      by_cases hp : p.1 = stepId
      · rw [if_pos hp, List.map_cons, List.map_cons, hp, if_pos List.mem_cons_self]
      · have hmem : stepId ∈ (p :: rest).map Prod.fst ↔ stepId ∈ rest.map Prod.fst := by
          rw [List.map_cons, List.mem_cons]
          exact or_iff_right (Ne.symm hp)
        rw [if_neg hp, List.map_cons, map_fst_markStep stepId e rest]
        simp only [hmem]
        split_ifs
        · rfl
        · rfl

theorem nodup_markStep {l : List (String × ExecState)} (h : (l.map Prod.fst).Nodup) :
    ((markStep stepId e l).map Prod.fst).Nodup := by
  rw [map_fst_markStep]
  split_ifs with hmem
  · exact h
  · rw [List.nodup_append]
    refine ⟨h, List.nodup_singleton _, ?_⟩
    intro x hx y hy
    rw [List.mem_singleton] at hy
    rintro rfl
    exact hmem (hy ▸ hx)

/-- Where ids are not repeated, only the marked step changes. -/
theorem mem_markStep : ∀ {l : List (String × ExecState)}, (l.map Prod.fst).Nodup →
    (sid, f) ∈ markStep stepId e l → (sid = stepId ∧ f = e) ∨ (sid ≠ stepId ∧ (sid, f) ∈ l)
  | [], _, h => by
      rw [markStep, List.mem_singleton] at h
      cases h
      exact .inl ⟨rfl, rfl⟩
  | p :: rest, hn, h => by
      unfold markStep at h
      rw [List.map_cons, List.nodup_cons] at hn
      split_ifs at h with hp
      · rcases List.mem_cons.mp h with heq | hrest
        · cases heq
          exact .inl ⟨rfl, rfl⟩
        · refine .inr ⟨?_, List.mem_cons_of_mem _ hrest⟩
          rintro rfl
          exact hn.1 (hp ▸ List.mem_map_of_mem hrest)
      · rcases List.mem_cons.mp h with rfl | h
        · exact .inr ⟨hp, List.mem_cons_self⟩
        · rcases mem_markStep hn.2 h with hs | ⟨hne, h⟩
          · exact .inl hs
          · exact .inr ⟨hne, List.mem_cons_of_mem _ h⟩

end mark

/-! ### Agreement -/

/-- Every step of the view has a record of the same state. -/
def Agree (view : Option PlanView) (evidence : Evidence) : Prop :=
  ∀ v, view = some v → ∀ sid e, (sid, e) ∈ v.steps →
    ∃ ev, evidence.get? sid = some ev ∧ ev.execState = e

/-- The blueprint is a new action for a step that is not finished. -/
def reopens (ev : StepEvidence) (s : StepPayload) : Bool :=
  ev.toolName ≠ "" && s.toolName ≠ "" && s.toolName ≠ ev.toolName &&
    !(ev.execState = .completed || ev.execState = .idempotent || ev.execState = .cancelled)

/-- The step has a recorded state other than PENDING and the blueprint keeps it. -/
def keepsRecord (evidence : Evidence) (s : StepPayload) : Bool :=
  match evidence.get? s.stepId with
  | none => false
  | some ev => ev.execState ≠ .pending && !reopens ev s

/-- A blueprint lists only steps that are pending once it is recorded. -/
def listsPending (evidence : Evidence) : Event → Bool
  | .planCreated _ _ _ _ steps | .planRevised _ _ _ _ steps _ =>
    steps.all fun s => !keepsRecord evidence s
  | _ => true

/-- The event fits the plan that is shown: a blueprint repeats no id, a step is marked under the
id of that plan, and it is started when it is pending there. -/
def Event.orderly (view : Option PlanView) : Event → Prop
  | .planCreated _ _ _ _ steps => (steps.map StepPayload.stepId).Nodup ∧ ∀ s ∈ steps, s.stepId ≠ ""
  | .planRevised planId _ _ _ steps _ => (∃ v, view = some v ∧ v.planId = planId) ∧
      (steps.map StepPayload.stepId).Nodup ∧ ∀ s ∈ steps, s.stepId ≠ ""
  | .stepStarted planId stepId _ _ => ∃ v, view = some v ∧ v.planId = planId ∧ (stepId, .pending) ∈ v.steps
  | .stepCompleted planId _ _ _ _ _ | .stepFailed planId _ _ _ _ _ | .stepSkipped planId _ _ _ =>
    ∃ v, view = some v ∧ v.planId = planId
  | _ => True

/-- The view repeats no id. -/
def Unrepeated (view : Option PlanView) : Prop := ∀ v, view = some v → (v.steps.map Prod.fst).Nodup

section agreement
variable {view : Option PlanView} {evidence : Evidence} {e : Event} {seq : ℕ} {planId : String}

theorem nodup_blueprintView {steps : List StepPayload} (h : (steps.map StepPayload.stepId).Nodup) :
    ((blueprintView planId steps).steps.map Prod.fst).Nodup := by
  unfold blueprintView
  rw [List.map_map]
  exact h

theorem Unrepeated.mark (h : Unrepeated view) (planId stepId : String) (f : ExecState) :
    Unrepeated (view.map (PlanView.mark planId stepId f)) := by
  intro v hv
  obtain ⟨v₀, hv₀, rfl⟩ := Option.map_eq_some_iff.mp hv
  unfold PlanView.mark
  split_ifs
  · exact nodup_markStep (h v₀ hv₀)
  · exact h v₀ hv₀

/-- An orderly event keeps the ids of the view apart. -/
theorem Unrepeated.viewAfter (h : Unrepeated view) (he : e.orderly view) :
    Unrepeated (viewAfter view e) := by
  cases e with
  | planCreated planId intent summary n steps =>
      rintro v ⟨⟩
      exact nodup_blueprintView he.1
  | planRevised planId reason intent remaining steps tasks =>
      intro v hv
      obtain ⟨v₀, hv₀, rfl⟩ := Option.map_eq_some_iff.mp hv
      unfold PlanView.revise
      split_ifs
      · exact nodup_blueprintView he.2.1
      · exact h v₀ hv₀
  | stepStarted | stepCompleted | stepFailed | stepSkipped => exact h.mark _ _ _
  | _ => exact h

/-- In terms of the record that is read or created. -/
theorem keepsRecord_eq (evidence : Evidence) (s : StepPayload) (planId : String) (seq : ℕ) :
    keepsRecord evidence s = (decide ((evidenceOf evidence s.stepId planId seq).execState ≠ .pending) &&
      !reopens (evidenceOf evidence s.stepId planId seq) s) := by
  unfold keepsRecord evidenceOf
  cases hev : evidence.get? s.stepId with
  | none => rfl
  | some ev =>
      simp only
      split_ifs
      · rfl
      · rfl

/-- **A blueprint makes a step pending, unless it keeps its record.** -/
theorem applyBlueprintStep_pending_iff {s : StepPayload} (h : s.stepId ≠ "") :
    ∃ ev, (applyBlueprintStep planId seq evidence s).get? s.stepId = some ev ∧
      (ev.execState = .pending ↔ keepsRecord evidence s = false) := by
  unfold applyBlueprintStep
  rw [if_neg h, keepsRecord_eq evidence s planId seq]
  simp only [Lib.Dict.get?_set, if_pos]
  refine ⟨_, rfl, ?_⟩
  generalize evidenceOf evidence s.stepId planId seq = ev
  have hnew : orElseStr s.toolName ev.toolName ≠ ev.toolName ↔
      s.toolName ≠ "" ∧ s.toolName ≠ ev.toolName := by
    unfold orElseStr
    by_cases h0 : s.toolName = "" <;> simp [h0]
  unfold reopens
  simp only [hnew]
  split_ifs with hre
  · simp [hre]
  · simp only [Bool.and_eq_false_iff, decide_eq_false_iff_not, Bool.not_eq_false', Bool.and_eq_true,
      decide_eq_true_eq, Bool.not_eq_true', Bool.or_eq_false_iff, not_not]
    tauto

/-- **After a blueprint the view agrees with the evidence when every listed step is pending.** -/
theorem agree_blueprint_iff {steps : List StepPayload} (hn : (steps.map StepPayload.stepId).Nodup)
    (hne : ∀ s ∈ steps, s.stepId ≠ "") :
    Agree (some (blueprintView planId steps)) (applyBlueprint planId seq steps evidence) ↔
      (steps.all fun s => !keepsRecord evidence s) = true := by
  have hrec : ∀ s ∈ steps, ∃ ev, (applyBlueprint planId seq steps evidence).get? s.stepId = some ev ∧
      (ev.execState = .pending ↔ keepsRecord evidence s = false) := by
    intro s hs
    rw [applyBlueprint_get?_of_mem hn s hs]
    exact applyBlueprintStep_pending_iff (hne s hs)
  rw [List.all_eq_true]
  constructor
  · intro ha s hs
    obtain ⟨ev, hev, hiff⟩ := hrec s hs
    obtain ⟨ev', hev', hst⟩ := ha _ rfl s.stepId .pending (List.mem_map.mpr ⟨s, hs, rfl⟩)
    rw [hev] at hev'
    cases hev'
    rw [hiff.mp hst]
    rfl
  · rintro hall v ⟨⟩ sid e hmem
    obtain ⟨s, hs, heq⟩ := List.mem_map.mp hmem
    cases heq
    obtain ⟨ev, hev, hiff⟩ := hrec s hs
    refine ⟨ev, hev, hiff.mpr ?_⟩
    simpa using hall s hs

variable [Py]

/-- Marking a step as it is recorded keeps the agreement. -/
theorem Agree.mark {stepId : String} {f : ExecState} (ha : Agree view evidence) (hn : Unrepeated view)
    (hb : e.isBlueprint = false) (hsub : e.subject = some stepId)
    (hst : ∃ ev, (applyEvent evidence seq e).get? stepId = some ev ∧ ev.execState = f)
    (hv : ∃ v, view = some v ∧ v.planId = planId) :
    Agree (view.map (PlanView.mark planId stepId f)) (applyEvent evidence seq e) := by
  obtain ⟨v, rfl, hid⟩ := hv
  rintro v' ⟨⟩ sid g hmem
  simp only [PlanView.mark, if_pos hid] at hmem
  rcases mem_markStep (hn v rfl) hmem with ⟨rfl, rfl⟩ | ⟨hne, hmem⟩
  · exact hst
  · obtain ⟨ev, hev, hg⟩ := ha v rfl sid g hmem
    obtain ⟨ev', hev', _, hst'⟩ : Framed (applyEvent evidence seq e) e sid ev := applyEvent_frame hb hev
    refine ⟨ev', hev', ?_⟩
    rw [hst', hg]
    rw [hsub]
    exact fun h => hne (Option.some.inj h).symm

/-- Starting a pending step records it as running. -/
theorem applyEvent_started {stepId toolName : String} {dependsOn : List String} {ev : StepEvidence}
    (hev : evidence.get? stepId = some ev) (hst : ev.execState = .pending) :
    ∃ ev', (applyEvent evidence seq (.stepStarted planId stepId toolName dependsOn)).get? stepId =
      some ev' ∧ ev'.execState = .running := by
  unfold applyEvent
  simp only [Lib.Dict.get?_set, if_pos]
  refine ⟨_, rfl, ?_⟩
  simp [(evidenceOf_of_get? hev planId seq).1, hst]

/-- An event that marks no step keeps the agreement. -/
theorem Agree.silent (ha : Agree view evidence) (hb : e.isBlueprint = false) (hsub : e.subject = none) :
    Agree view (applyEvent evidence seq e) := by
  intro v hv sid g hmem
  obtain ⟨ev, hev, hg⟩ := ha v hv sid g hmem
  obtain ⟨ev', hev', _, hst'⟩ : Framed (applyEvent evidence seq e) e sid ev := applyEvent_frame hb hev
  refine ⟨ev', hev', ?_⟩
  rw [hst', hg]
  rw [hsub]
  exact fun h => by cases h

/-- **One orderly event keeps the agreement exactly when its blueprint lists pending steps.** -/
theorem Agree.step_iff (ha : Agree view evidence) (hn : Unrepeated view) (ho : e.orderly view) :
    Agree (viewAfter view e) (applyEvent evidence seq e) ↔ listsPending evidence e = true := by
  cases e with
  | planCreated planId intent summary n steps => exact agree_blueprint_iff ho.1 ho.2
  | planRevised planId reason intent remaining steps tasks =>
      obtain ⟨⟨v, rfl, hid⟩, hnodup, hne⟩ := ho
      by_cases hs : steps = []
      · subst hs
        have hsame : viewAfter (some v) (.planRevised planId reason intent remaining [] tasks) = some v := by
          simp [viewAfter, PlanView.revise]
        rw [hsame]
        exact iff_of_true ha rfl
      · have hnew : viewAfter (some v) (.planRevised planId reason intent remaining steps tasks) =
            some (blueprintView planId steps) := by
          simp [viewAfter, PlanView.revise, hid, hs]
        rw [hnew]
        exact agree_blueprint_iff hnodup hne
  | stepStarted planId stepId toolName dependsOn =>
      obtain ⟨v, hv, hid, hmem⟩ := ho
      obtain ⟨ev, hev, hst⟩ := ha v hv stepId .pending hmem
      exact iff_of_true (ha.mark hn rfl rfl (applyEvent_started hev hst) ⟨v, hv, hid⟩) rfl
  | stepCompleted planId stepId summary status error callId =>
      exact iff_of_true (ha.mark hn rfl rfl (applyEvent_outcome rfl) ho) rfl
  | stepFailed planId stepId error retryable toolName callId =>
      exact iff_of_true (ha.mark hn rfl rfl (applyEvent_outcome rfl) ho) rfl
  | stepSkipped planId stepId reason toolName =>
      exact iff_of_true (ha.mark hn rfl rfl (applyEvent_outcome rfl) ho) rfl
  | _ => exact iff_of_true (ha.silent rfl rfl) rfl

end agreement

/-! ### OrderlyLog logs -/

/-- Every event fits the plan that is shown when it is written. -/
def OrderlyLog (log : List Event) : Prop := ∀ pre e, pre ++ [e] <+: log → e.orderly (foldView pre)

theorem concat_prefix_concat {pre log : List Event} {d e : Event} :
    pre ++ [d] <+: log ++ [e] ↔ (pre = log ∧ d = e) ∨ pre ++ [d] <+: log := by
  rw [List.prefix_concat_iff]
  refine or_congr_left ?_
  constructor
  · intro h
    obtain ⟨h1, h2⟩ := List.append_inj' h rfl
    exact ⟨h1, List.singleton_inj.mp h2⟩
  · rintro ⟨rfl, rfl⟩
    rfl

theorem orderly_nil : OrderlyLog [] := by
  intro pre e h
  have := h.length_le
  simp at this

theorem OrderlyLog.append {log : List Event} {e : Event} (h : OrderlyLog log) (he : e.orderly (foldView log)) :
    OrderlyLog (log ++ [e]) := by
  intro pre d hpre
  rcases concat_prefix_concat.mp hpre with ⟨rfl, rfl⟩ | hpre
  · exact he
  · exact h pre d hpre

theorem OrderlyLog.init {log : List Event} {e : Event} (h : OrderlyLog (log ++ [e])) : OrderlyLog log :=
  fun pre d hpre => h pre d (hpre.trans (List.prefix_append _ _))

theorem OrderlyLog.last {log : List Event} {e : Event} (h : OrderlyLog (log ++ [e])) :
    e.orderly (foldView log) := h log e (List.prefix_refl _)

theorem OrderlyLog.unrepeated {log : List Event} (h : OrderlyLog log) : Unrepeated (foldView log) := by
  induction log using List.reverseRecOn with
  | nil => exact fun v hv => by cases hv
  | append_singleton log e ih =>
      rw [foldView_append]
      exact (ih h.init).viewAfter h.last

/-- **In an orderly log the view agrees with the evidence after every event if and only if every
blueprint lists only steps that are pending once it is recorded.** -/
theorem agree_iff_of_orderly [Py] {log : List Event} (h : OrderlyLog log) :
    (∀ pre, pre <+: log → Agree (foldView pre) (foldEvidence pre)) ↔
      ∀ pre e, pre ++ [e] <+: log → listsPending (foldEvidence pre) e = true := by
  induction log using List.reverseRecOn with
  | nil =>
      refine iff_of_true ?_ ?_
      · intro pre hpre v hv
        rw [List.prefix_nil.mp hpre] at hv
        cases hv
      · intro pre e hpre
        have := hpre.length_le
        simp at this
  | append_singleton log e ih =>
      have hstep : Agree (foldView log) (foldEvidence log) →
          (Agree (foldView (log ++ [e])) (foldEvidence (log ++ [e])) ↔
            listsPending (foldEvidence log) e = true) := by
        intro ha
        rw [foldView_append, foldEvidence_append]
        exact ha.step_iff h.init.unrepeated h.last
      constructor
      · intro hall pre d hpre
        have hinit : ∀ pre, pre <+: log → Agree (foldView pre) (foldEvidence pre) :=
          fun pre hpre => hall pre (hpre.trans (List.prefix_append _ _))
        rcases concat_prefix_concat.mp hpre with ⟨rfl, rfl⟩ | hpre
        · exact (hstep (hinit pre (List.prefix_refl _))).mp (hall _ (List.prefix_refl _))
        · exact (ih h.init).mp hinit pre d hpre
      · intro hall pre hpre
        have hinit : ∀ pre, pre <+: log → Agree (foldView pre) (foldEvidence pre) :=
          (ih h.init).mpr fun pre d hpre => hall pre d (hpre.trans (List.prefix_append _ _))
        rcases List.prefix_concat_iff.mp hpre with rfl | hpre
        · exact (hstep (hinit log (List.prefix_refl _))).mpr (hall log e (List.prefix_refl _))
        · exact hinit pre hpre

/-! ### The stored payloads -/

/-- The stored form of a step of a blueprint. -/
def StepPayload.toObj (s : StepPayload) : Obj :=
  [("step_id", .str s.stepId), ("tool_name", .str s.toolName), ("input", .obj s.input),
    ("depends_on", .arr (s.dependsOn.map .str)), ("description", .str s.description),
    ("probe", .bool s.probe)]

/-- The event of the scheduler is stored with this payload. -/
def StoredAs : Event → Payload → Prop
  | .planCreated planId intent summary n steps, p =>
    p = .planCreated planId intent summary n (steps.map StepPayload.toObj)
  | .planRevised planId reason intent remaining steps tasks, p =>
    p = .planRevised planId reason intent remaining (steps.map StepPayload.toObj) tasks
  | .planCompleted planId completed layers summary, p => p = .planCompleted planId completed layers summary
  | .planFailed planId completed layers error, p => p = .planFailed planId completed layers error
  | .stepStarted planId stepId toolName dependsOn, p => p = .stepStarted planId stepId toolName dependsOn
  | .stepCompleted planId stepId summary status error callId, p =>
    p = .stepCompleted planId stepId summary status.value error callId
  | .stepFailed planId stepId error retryable toolName callId, p =>
    p = .stepFailed planId stepId error retryable toolName callId
  | .stepSkipped planId stepId reason toolName, p => p = .stepSkipped planId stepId reason toolName
  | .toolCompleted callId toolName output stepId, p => ∃ q : ToolCompletedPayload, p = .toolCompleted q ∧
      q.toolCallId = callId ∧ q.toolName = toolName ∧ q.output = output ∧ q.stepId = stepId
  | .stepRepairStarted .., p | .stepRepairCompleted .., p => ∃ phase, p = .stepRepair phase
  | .runPaused reason, p => p = .runPaused reason
  | .runCompleted allNormal, p => ∃ q : RunCompletedPayload, p = .runCompleted q ∧ q.allNormal = allNormal
  | .runFailed error, p => ∃ q : RunFailedPayload, p = .runFailed q ∧ q.finalError = error
  | .other _, p => p.eventType ≠ .plan ∧ p.eventType ≠ .step ∧ ∀ q, p ≠ .toolCompleted q

/-- One payload the event can be stored with. -/
def Event.payload : Event → Payload
  | .planCreated planId intent summary n steps =>
    .planCreated planId intent summary n (steps.map StepPayload.toObj)
  | .planRevised planId reason intent remaining steps tasks =>
    .planRevised planId reason intent remaining (steps.map StepPayload.toObj) tasks
  | .planCompleted planId completed layers summary => .planCompleted planId completed layers summary
  | .planFailed planId completed layers error => .planFailed planId completed layers error
  | .stepStarted planId stepId toolName dependsOn => .stepStarted planId stepId toolName dependsOn
  | .stepCompleted planId stepId summary status error callId =>
    .stepCompleted planId stepId summary status.value error callId
  | .stepFailed planId stepId error retryable toolName callId =>
    .stepFailed planId stepId error retryable toolName callId
  | .stepSkipped planId stepId reason toolName => .stepSkipped planId stepId reason toolName
  | .toolCompleted toolCallId toolName output stepId => .toolCompleted { toolCallId, toolName, output, stepId }
  | .stepRepairStarted .. => .stepRepair "started"
  | .stepRepairCompleted .. => .stepRepair "completed"
  | .runPaused reason => .runPaused reason
  | .runCompleted allNormal => .runCompleted { resultSummary := "", allNormal }
  | .runFailed finalError => .runFailed { finalError, eventCount := 0 }
  | .other kind => .diagnostic kind

theorem storedAs_payload (e : Event) : StoredAs e e.payload := by
  cases e with
  | toolCompleted => exact ⟨_, rfl, rfl, rfl, rfl, rfl⟩
  | stepRepairStarted | stepRepairCompleted => exact ⟨_, rfl⟩
  | runCompleted | runFailed => exact ⟨_, rfl, rfl⟩
  | other kind =>
      refine ⟨?_, ?_, ?_⟩
      · simp [Event.payload, Payload.eventType]
      · simp [Event.payload, Payload.eventType]
      · simp [Event.payload]
  | _ => exact rfl

theorem forall₂_storedAs_payload (log : List Event) : List.Forall₂ StoredAs log (log.map Event.payload) := by
  rw [List.forall₂_map_right_iff, List.forall₂_same]
  exact fun e _ => storedAs_payload e

/-- The status a listed step is shown with: none means pending, and a started step is running. -/
def shownState (s : Obj) : Value :=
  let status := (Obj.get? s "status").getD (.str "pending")
  if status = .str "started" then .str "running" else status

/-- The record of a listed step has the state it is shown with. -/
def RunState.stepAgrees (st : RunState) (s : Obj) : Bool :=
  match Obj.get? s "step_id" with
  | some (.str stepId) => (st.stepEvidence.get? stepId).any fun ev => shownState s = .str ev.execState
  | _ => false

/-- The status of every step of `latest_plan` agrees with its evidence. -/
def RunState.viewAgrees (st : RunState) : Bool :=
  st.latestPlan.all fun plan => plan.steps.all st.stepAgrees

/-- An entry of the step list shows this step in this state. -/
def ShowsStep (s : Obj) (p : String × ExecState) : Prop :=
  Obj.get? s "step_id" = some (.str p.1) ∧ shownState s = .str p.2.value

/-- The folded state holds the view and the evidence. -/
structure Refines (st : RunState) (view : Option PlanView) (evidence : Evidence) : Prop where
  plan : Option.Rel (fun entry v => entry.planId = v.planId ∧ List.Forall₂ ShowsStep entry.steps v.steps)
    st.latestPlan view
  records : ∀ sid, Option.Rel (fun r ev => r.execState = ev.execState.value ∧ r.toolName = ev.toolName)
    (st.stepEvidence.get? sid) (evidence.get? sid)

theorem value_eq_iff {e f : ExecState} : e.value = f.value ↔ e = f := by
  cases e <;> cases f <;> decide

theorem value_ne_empty (e : ExecState) : e.value ≠ "" := by
  cases e <;> decide

theorem value_ne_started (e : ExecState) : e.value ≠ "started" := by
  cases e <;> decide

theorem nonEmpty_some {s : String} (h : s ≠ "") : nonEmpty (some s) = some s := by
  unfold nonEmpty
  split <;> simp_all

theorem Obj.get?_put (o : Obj) (k k' : String) (v : Value) :
    Obj.get? (o.put k v) k' = if k = k' then some v else Obj.get? o k' := by
  unfold Obj.put Obj.get?
  by_cases hk : (Lib.assoc k o).isSome = true
  · have hmem : k ∈ o.map Prod.fst := by
      by_contra hc
      rw [Lib.assoc_eq_none_iff.mpr hc] at hk
      cases hk
    rw [if_pos hk, Lib.Dict.assoc_replace]
    simp [hmem]
  · rw [Option.not_isSome_iff_eq_none] at hk
    rw [if_neg (by simp [hk]), Lib.assoc_append]
    by_cases h : k = k'
    · subst h
      simp [hk, Lib.assoc]
    · simp [Lib.assoc, h]

theorem Obj.get?_putText_of_ne (o : Obj) {k k' : String} (v : Option String) (h : k ≠ k') :
    Obj.get? (o.putText k v) k' = Obj.get? o k' := by
  unfold Obj.putText
  split
  · rw [Obj.get?_put, if_neg h]
  · rfl

/-- A step object with this id and this stored status. -/
theorem showsStep_of_get? {s : Obj} {stepId : String} {e : ExecState} (status : String)
    (hid : Obj.get? s "step_id" = some (.str stepId)) (hst : Obj.get? s "status" = some (.str status))
    (he : (status = "started" ∧ e = .running) ∨ status = e.value) : ShowsStep s (stepId, e) := by
  refine ⟨hid, ?_⟩
  unfold shownState
  rw [hst]
  simp only [Option.getD_some, Value.str.injEq]
  rcases he with ⟨rfl, rfl⟩ | rfl
  · rfl
  · rw [if_neg (value_ne_started e)]

section refinement
variable {st : RunState} {view : Option PlanView} {evidence : Evidence}

/-- Marking a step in the stored list. -/
theorem upsertStep_shows {stepId : String} {e : ExecState} {update : Obj → Obj} {new : Obj}
    (hup : ∀ s, Obj.get? s "step_id" = some (.str stepId) → ShowsStep (update s) (stepId, e))
    (hnew : ShowsStep new (stepId, e)) : ∀ {steps : List Obj} {l : List (String × ExecState)},
    List.Forall₂ ShowsStep steps l →
      ∃ steps', upsertStep stepId update new steps = .ok steps' ∧
        List.Forall₂ ShowsStep steps' (markStep stepId e l)
  | _, _, .nil => ⟨[new], rfl, .cons hnew .nil⟩
  | s :: steps, p :: l, .cons hs hrest => by
      unfold upsertStep markStep
      simp only [hs.1, Value.str.injEq]
      by_cases hp : p.1 = stepId
      · rw [if_pos hp, if_pos hp]
        exact ⟨_, rfl, .cons (hup s (hp ▸ hs.1)) hrest⟩
      · obtain ⟨steps', hok, hshow⟩ := upsertStep_shows hup hnew hrest
        rw [if_neg hp, if_neg hp, hok]
        exact ⟨_, rfl, .cons hs hshow⟩

/-- The record that is read or created is the same. -/
theorem Refines.record (h : Refines st view evidence) (stepId planId : String) (seq seq' : ℕ) :
    (st.record stepId planId seq).execState = (evidenceOf evidence stepId planId seq').execState.value ∧
      (st.record stepId planId seq).toolName = (evidenceOf evidence stepId planId seq').toolName := by
  have hr := h.records stepId
  unfold RunState.record evidenceOf
  cases hst : st.stepEvidence.get? stepId with
  | none =>
      rw [hst] at hr
      cases hev : evidence.get? stepId with
      | none => exact ⟨rfl, rfl⟩
      | some ev =>
          rw [hev] at hr
          cases hr
  | some r =>
      rw [hst] at hr
      cases hev : evidence.get? stepId with
      | none =>
          rw [hev] at hr
          cases hr
      | some ev =>
          rw [hev] at hr
          cases hr with
          | some hr =>
              simp only
              split_ifs
              · exact hr
              · exact hr

/-- Writing a record on both sides. -/
theorem Refines.setRecord (h : Refines st view evidence) {stepId : String} {r : StepRecord}
    {ev : StepEvidence} (hst : r.execState = ev.execState.value) (ht : r.toolName = ev.toolName) :
    Refines (st.setRecord stepId r) view (evidence.set stepId ev) := by
  refine ⟨h.plan, fun sid => ?_⟩
  have hget : (st.setRecord stepId r).stepEvidence = st.stepEvidence.set stepId r := rfl
  rw [hget, Lib.Dict.get?_set, Lib.Dict.get?_set]
  split_ifs
  · exact .some ⟨hst, ht⟩
  · exact h.records sid

/-- A change of the latest plan on both sides. -/
theorem Refines.onLatestPlan (h : Refines st view evidence) (planId : String)
    {f : PlanEntry → Except String PlanEntry} {g : PlanView → PlanView}
    (hother : ∀ v : PlanView, v.planId ≠ planId → g v = v)
    (hf : ∀ entry v, entry.planId = planId → v.planId = planId →
      List.Forall₂ ShowsStep entry.steps v.steps → ∃ entry', f entry = .ok entry' ∧
        entry'.planId = (g v).planId ∧ List.Forall₂ ShowsStep entry'.steps (g v).steps) :
    ∃ st', st.onLatestPlan planId f = .ok st' ∧ Refines st' (view.map g) evidence := by
  have hp := h.plan
  unfold RunState.onLatestPlan
  cases hst : st.latestPlan with
  | none =>
      rw [hst] at hp
      cases hp
      exact ⟨st, rfl, by rw [hst]; exact .none, h.records⟩
  | some entry =>
      rw [hst] at hp
      cases hp with
      | @some _ v hv =>
          simp only
          by_cases hid : entry.planId = planId
          · obtain ⟨entry', hok, hshow⟩ := hf entry v hid (hv.1 ▸ hid) hv.2
            rw [if_pos hid, hok]
            refine ⟨_, rfl, ?_, h.records⟩
            have hlast : (st.planHistory.dropLast ++ [entry']).getLast? = some entry' := by simp
            unfold RunState.latestPlan
            rw [hlast]
            exact .some hshow
          · rw [if_neg hid]
            refine ⟨st, rfl, ?_, h.records⟩
            rw [hst, Option.map_some, hother v (hv.1 ▸ hid)]
            exact .some hv

/-- Marking a step on both sides. -/
theorem Refines.mark (h : Refines st view evidence) {planId stepId : String} {e : ExecState}
    {update : Obj → Obj} {new : Obj}
    (hup : ∀ s, Obj.get? s "step_id" = some (.str stepId) → ShowsStep (update s) (stepId, e))
    (hnew : ShowsStep new (stepId, e)) :
    ∃ st', st.onLatestPlan planId (fun entry => entry.upsert stepId update new) = .ok st' ∧
      Refines st' (view.map (PlanView.mark planId stepId e)) evidence := by
  apply h.onLatestPlan planId
  · intro v hne
    exact if_neg hne
  · intro entry v hid hv hsteps
    obtain ⟨steps', hok, hshow⟩ := upsertStep_shows hup hnew hsteps
    refine ⟨{ entry with steps := steps' }, ?_, ?_⟩
    · unfold PlanEntry.upsert
      rw [hok]
    · unfold PlanView.mark
      rw [if_pos hv]
      exact ⟨by rw [hid, hv], hshow⟩

theorem forall₂_toObj (steps : List StepPayload) :
    List.Forall₂ ShowsStep (steps.map StepPayload.toObj) (steps.map fun s => (s.stepId, .pending)) := by
  rw [List.forall₂_map_left_iff, List.forall₂_map_right_iff, List.forall₂_same]
  exact fun s _ => ⟨rfl, rfl⟩

/-- Fields that neither the view nor the evidence reads may change. -/
theorem Refines.of_eq {st' : RunState} (h : Refines st view evidence)
    (hplan : st'.planHistory = st.planHistory) (hev : st'.stepEvidence = st.stepEvidence) :
    Refines st' view evidence := by
  refine ⟨?_, ?_⟩
  · unfold RunState.latestPlan
    rw [hplan]
    exact h.plan
  · rw [hev]
    exact h.records

/-- A revision of the stored plan. -/
theorem showsRevised {planId reason intent remaining : String} {steps : List StepPayload}
    {tasks : List (String × String)} {entry : PlanEntry} {v : PlanView} (hid : entry.planId = planId)
    (hv : v.planId = planId) (hsteps : List.Forall₂ ShowsStep entry.steps v.steps) :
    (entry.revised reason intent remaining (steps.map StepPayload.toObj) tasks).planId =
        (v.revise planId steps).planId ∧
      List.Forall₂ ShowsStep
        (entry.revised reason intent remaining (steps.map StepPayload.toObj) tasks).steps
        (v.revise planId steps).steps := by
  unfold PlanEntry.revised PlanView.revise
  cases steps with
  | nil => simpa [hid, hv] using hsteps
  | cons s steps =>
      simp only [hv, List.map_cons, List.isEmpty_cons, Bool.not_false, decide_true, Bool.and_self, if_true,
        Bool.false_eq_true, if_false]
      exact ⟨hid, forall₂_toObj (s :: steps)⟩

/-- A plan event that leaves the steps alone. -/
theorem Refines.keepSteps (h : Refines st view evidence) {planId : String} {f : PlanEntry → PlanEntry}
    (hf : ∀ entry, (f entry).planId = entry.planId ∧ (f entry).steps = entry.steps) :
    ∃ st', st.onLatestPlan planId (fun entry => .ok (f entry)) = .ok st' ∧ Refines st' view evidence := by
  have hid : view.map id = view := by simp
  rw [← hid]
  apply h.onLatestPlan planId
  · exact fun v _ => rfl
  · intro entry v hent hv hsteps
    refine ⟨f entry, rfl, ?_, ?_⟩
    · rw [(hf entry).1, hent]
      exact hv.symm
    · rw [(hf entry).2]
      exact hsteps

variable [Py]

/-- One step of a stored blueprint. -/
theorem Refines.blueprintEntry (h : Refines st view evidence) (planId : String) (seq seq' : ℕ)
    (s : StepPayload) : ∃ st', applyBlueprintEntry planId seq st s.toObj = .ok st' ∧
      st'.planHistory = st.planHistory ∧
      Refines st' view (applyBlueprintStep planId seq' evidence s) := by
  obtain ⟨hst, ht⟩ := h.record s.stepId planId seq seq'
  have hid : Obj.get? s.toObj "step_id" = some (.str s.stepId) := rfl
  have htool : Obj.get? s.toObj "tool_name" = some (.str s.toolName) := rfl
  have hdeps : pyList (Obj.get? s.toObj "depends_on") = .ok (s.dependsOn.map .str) := rfl
  have hpend : ∀ e : ExecState, e.value = "pending" ↔ e = .pending := fun e => value_eq_iff (f := .pending)
  unfold applyBlueprintEntry applyBlueprintStep
  simp only [hid, htool, hdeps, Value.truthy, pyStr]
  by_cases h0 : s.stepId = ""
  · simp only [h0, if_true, ne_eq, not_true_eq_false, decide_false, Bool.not_false]
    exact ⟨st, rfl, rfl, h⟩
  · simp only [h0, if_false, ne_eq, not_false_eq_true, decide_true, Bool.not_true, Bool.false_eq_true]
    refine ⟨_, rfl, rfl, ?_⟩
    have htool' : (if decide (¬s.toolName = "") = true then s.toolName
          else (evidenceOf evidence s.stepId planId seq').toolName) =
        orElseStr s.toolName (evidenceOf evidence s.stepId planId seq').toolName := by
      unfold orElseStr
      by_cases hn : s.toolName = "" <;> simp [hn]
    simp only [hst, ht, htool']
    generalize evidenceOf evidence s.stepId planId seq' = ev
    have hstate : ["completed", "idempotent", "cancelled"].contains ev.execState.value = true ↔
        ev.execState = .completed ∨ ev.execState = .idempotent ∨ ev.execState = .cancelled := by
      cases ev.execState <;> decide
    simp only [Bool.and_eq_true, Bool.not_eq_true', ← Bool.not_eq_true, hstate, decide_eq_true_eq, hpend]
    split_ifs
    · exact h.setRecord rfl rfl
    · exfalso
      tauto
    · exfalso
      tauto
    · exact h.setRecord rfl rfl

/-- A stored blueprint. -/
theorem Refines.blueprint (planId : String) (seq seq' : ℕ) : ∀ (steps : List StepPayload)
    {st : RunState} {evidence : Evidence}, Refines st view evidence →
    ∃ st', applyPlanBlueprint planId seq (steps.map StepPayload.toObj) st = .ok st' ∧
      Refines st' view (applyBlueprint planId seq' steps evidence)
  | [], st, evidence, h => ⟨st, rfl, h⟩
  | s :: steps, st, evidence, h => by
      obtain ⟨st₁, hok, _, h₁⟩ := h.blueprintEntry planId seq seq' s
      obtain ⟨st₂, hok', h₂⟩ := Refines.blueprint planId seq seq' steps h₁
      refine ⟨st₂, ?_, h₂⟩
      rw [List.map_cons, applyPlanBlueprint, hok]
      exact hok'

/-- The output of a tool call is recorded, and no state changes. -/
theorem Refines.toolCompleted (h : Refines st view evidence) (q : ToolCompletedPayload) (seq seq' : ℕ) :
    ∃ st', JAgent.foldPayload st seq (.toolCompleted q) = .ok st' ∧
      Refines st' view (applyEvent evidence seq'
        (.toolCompleted q.toolCallId q.toolName q.output q.stepId)) := by
  have h0 : Refines { st with toolResults := st.toolResults ++ (toolResultOf seq (.toolCompleted q)).toList }
      view evidence := h.of_eq rfl rfl
  unfold JAgent.foldPayload
  simp only
  rcases hsid : q.stepId with _ | sid
  · exact ⟨_, rfl, h0⟩
  · by_cases hempty : sid = ""
    · subst hempty
      simp only [nonEmpty, applyEvent, if_true]
      exact ⟨_, rfl, h0⟩
    · obtain ⟨hst, ht⟩ := h0.record sid "" seq seq'
      simp only [nonEmpty_some hempty, applyEvent, if_neg hempty]
      refine ⟨_, rfl, h0.setRecord hst ?_⟩
      simp only [ht]
      rfl

/-- **One stored event changes the folded state as it changes the view and the evidence.** -/
theorem Refines.foldPayload (h : Refines st view evidence) {e : Event} {p : Payload} (hp : StoredAs e p)
    (seq seq' : ℕ) : ∃ st', foldPayload st seq p = .ok st' ∧
      Refines st' (viewAfter view e) (applyEvent evidence seq' e) := by
  cases e with
  | planCreated planId intent summary n steps =>
      obtain rfl : p = _ := hp
      have hnew : Refines { st with planHistory := st.planHistory ++
          [{ planId, intent, stepsSummary := summary, layerCount := n,
             steps := steps.map StepPayload.toObj }] } (some (blueprintView planId steps)) evidence := by
        refine ⟨?_, h.records⟩
        unfold RunState.latestPlan
        rw [List.getLast?_append, List.getLast?_singleton, Option.some_or]
        exact .some ⟨rfl, forall₂_toObj steps⟩
      exact hnew.blueprint planId seq seq' steps
  | planRevised planId reason intent remaining steps tasks =>
      obtain rfl : p = _ := hp
      have h0 : Refines { st with feedbacks := st.feedbacks.map (consumed seq) } view evidence :=
        h.of_eq rfl rfl
      obtain ⟨st₁, hok, h₁⟩ := h0.onLatestPlan planId
        (f := fun entry => .ok (entry.revised reason intent remaining (steps.map StepPayload.toObj) tasks))
        (g := PlanView.revise planId steps) (fun v hne => by simp [PlanView.revise, hne])
        (fun entry v hid hv hsteps => ⟨_, rfl, showsRevised hid hv hsteps⟩)
      have h₂ : Refines { st₁ with stepTasks := tasks.foldl (fun d kv => d.set kv.1 kv.2) st₁.stepTasks }
          (view.map (PlanView.revise planId steps)) evidence := h₁.of_eq rfl rfl
      obtain ⟨st₃, hok', h₃⟩ := h₂.blueprint planId seq seq' steps
      refine ⟨st₃, ?_, h₃⟩
      simp only [JAgent.foldPayload, hok]
      exact hok'
  | planCompleted planId completed layers summary =>
      obtain rfl : p = _ := hp
      have h0 : Refines { st with planBoundarySeqs := st.planBoundarySeqs ++ [seq] } view evidence :=
        h.of_eq rfl rfl
      exact h0.keepSteps fun entry => ⟨rfl, rfl⟩
  | planFailed planId completed layers error =>
      obtain rfl : p = _ := hp
      have h0 : Refines { st with planBoundarySeqs := st.planBoundarySeqs ++ [seq] } view evidence :=
        h.of_eq rfl rfl
      exact h0.keepSteps fun entry => ⟨rfl, rfl⟩
  | stepStarted planId stepId toolName dependsOn =>
      obtain rfl : p = _ := hp
      obtain ⟨hst, ht⟩ := h.record stepId planId seq seq'
      refine Refines.mark (h.setRecord ?_ ?_) ?_ ?_
      · simp only [hst, value_ne_empty, decide_false, Bool.or_false, decide_eq_true_eq]
        cases (evidenceOf evidence stepId planId seq').execState <;> rfl
      · simp only [ht]
        rfl
      · intro s hs
        refine showsStep_of_get? "started" ?_ ?_ (.inl ⟨rfl, rfl⟩)
        · simp [Obj.get?_put, hs]
        · simp [Obj.get?_put]
      · exact ⟨rfl, rfl⟩
  | stepCompleted planId stepId summary status error callId =>
      obtain rfl : p = _ := hp
      obtain ⟨hst, ht⟩ := h.record stepId planId seq seq'
      have hor : orText status.value "completed" = status.value := if_neg (value_ne_empty status)
      refine Refines.mark (h.setRecord ?_ ?_) ?_ ?_
      · exact hor
      · exact ht
      · intro s hs
        refine showsStep_of_get? status.value ?_ ?_ (.inr rfl)
        · simp [Obj.get?_put, Obj.get?_putText_of_ne, hs]
        · simp [Obj.get?_put, Obj.get?_putText_of_ne, hor]
      · refine showsStep_of_get? status.value ?_ ?_ (.inr rfl)
        · rw [Obj.get?_putText_of_ne _ _ (by decide), Obj.get?_putText_of_ne _ _ (by decide)]
          rfl
        · rw [Obj.get?_putText_of_ne _ _ (by decide), Obj.get?_putText_of_ne _ _ (by decide), hor]
          rfl
  | stepFailed planId stepId error retryable toolName callId =>
      obtain rfl : p = _ := hp
      obtain ⟨hst, ht⟩ := h.record stepId planId seq seq'
      refine Refines.mark (h.setRecord rfl ?_) ?_ ?_
      · simp only [ht]
        rfl
      · intro s hs
        refine showsStep_of_get? "failed" ?_ ?_ (.inr rfl)
        · simp [Obj.get?_put, Obj.get?_putText_of_ne, hs]
        · simp [Obj.get?_put, Obj.get?_putText_of_ne]
      · refine showsStep_of_get? "failed" ?_ ?_ (.inr rfl)
        · rw [Obj.get?_putText_of_ne _ _ (by decide)]
          rfl
        · rw [Obj.get?_putText_of_ne _ _ (by decide)]
          rfl
  | stepSkipped planId stepId reason toolName =>
      obtain rfl : p = _ := hp
      obtain ⟨hst, ht⟩ := h.record stepId planId seq seq'
      refine Refines.mark (h.setRecord rfl ?_) ?_ ?_
      · simp only [ht]
        rfl
      · intro s hs
        refine showsStep_of_get? "skipped" ?_ ?_ (.inr rfl)
        · simp [Obj.get?_put, hs]
        · simp [Obj.get?_put]
      · exact ⟨rfl, rfl⟩
  | toolCompleted callId toolName output stepId =>
      obtain ⟨q, rfl, rfl, rfl, rfl, rfl⟩ := hp
      exact h.toolCompleted q seq seq'
  | stepRepairStarted | stepRepairCompleted =>
      obtain ⟨phase, rfl⟩ := hp
      exact ⟨st, rfl, h⟩
  | runPaused reason =>
      obtain rfl : p = _ := hp
      exact ⟨_, rfl, h.of_eq rfl rfl⟩
  | runCompleted allNormal =>
      obtain ⟨q, rfl, _⟩ := hp
      exact ⟨_, rfl, h.of_eq rfl rfl⟩
  | runFailed error =>
      obtain ⟨q, rfl, _⟩ := hp
      exact ⟨_, rfl, h.of_eq rfl rfl⟩
  | other kind =>
      obtain ⟨hplan, hstep, htool⟩ := hp
      cases p with
      | toolCompleted q => exact absurd rfl (htool q)
      | planCreated | planRevised | planCompleted | planFailed => exact absurd rfl hplan
      | stepStarted | stepCompleted | stepFailed | stepSkipped => exact absurd rfl hstep
      | _ => exact ⟨_, rfl, h.of_eq rfl rfl⟩

/-- The loop over the stored events. -/
theorem Refines.foldFrom (runId : String) {log : List Event} {payloads : List Payload}
    (hstored : List.Forall₂ StoredAs log payloads) {st : RunState} {view : Option PlanView}
    {evidence : Evidence} (seq : ℕ) (h : Refines st view evidence) :
    ∃ st', foldFrom runId st (eventStream runId seq payloads) = .ok st' ∧
      Refines st' (log.foldl viewAfter view) (foldEvidenceFrom seq evidence log) := by
  induction hstored generalizing st view evidence seq with
  | nil => exact ⟨st, rfl, h⟩
  | cons hp hrest ih =>
      have h0 : Refines { st with seq := max st.seq seq } view evidence := h.of_eq rfl rfl
      obtain ⟨st₁, hok, h₁⟩ := h0.foldPayload hp seq seq
      obtain ⟨st₂, hok', h₂⟩ := ih (seq + 1) h₁
      refine ⟨st₂, ?_, h₂⟩
      simp only [eventStream, JAgent.foldFrom, foldEvent, ne_eq, not_true_eq_false, if_false, hok]
      exact hok'

/-- **The fold of the stored payloads computes the view and the evidence.** -/
theorem foldLog_refines (runId : String) {log : List Event} {payloads : List Payload}
    (h : List.Forall₂ StoredAs log payloads) (hne : log ≠ []) :
    ∃ st, foldLog runId payloads = .ok st ∧ Refines st (foldView log) (foldEvidence log) := by
  have h0 : Refines { runId } none .empty := ⟨.none, fun sid => .none⟩
  obtain ⟨st, hok, hst⟩ := h0.foldFrom runId h 1
  refine ⟨st, ?_, hst⟩
  cases h with
  | nil => exact absurd rfl hne
  | cons _ _ => exact hok

omit [Py] in
theorem forall_mem_iff {α β : Type} {R : α → β → Prop} {P : α → Prop} {Q : β → Prop} :
    ∀ {l : List α} {l' : List β}, List.Forall₂ R l l' → (∀ a b, R a b → (P a ↔ Q b)) →
      ((∀ a ∈ l, P a) ↔ ∀ b ∈ l', Q b)
  | _, _, .nil, _ => by simp
  | a :: l, b :: l', .cons hab hrest, hPQ => by
      rw [List.forall_mem_cons, List.forall_mem_cons, hPQ a b hab, forall_mem_iff hrest hPQ]

omit [Py] in
theorem Refines.stepAgrees_iff (h : Refines st view evidence) {s : Obj} {p : String × ExecState}
    (hs : ShowsStep s p) :
    st.stepAgrees s = true ↔ ∃ ev, evidence.get? p.1 = some ev ∧ ev.execState = p.2 := by
  have hr := h.records p.1
  unfold RunState.stepAgrees
  rw [hs.1, hs.2]
  simp only [Value.str.injEq]
  cases hst : st.stepEvidence.get? p.1 with
  | none =>
      rw [hst] at hr
      cases hev : evidence.get? p.1 with
      | none => simp
      | some ev =>
          rw [hev] at hr
          cases hr
  | some r =>
      rw [hst] at hr
      cases hev : evidence.get? p.1 with
      | none =>
          rw [hev] at hr
          cases hr
      | some ev =>
          rw [hev] at hr
          cases hr with
          | some hr =>
              simp only [Option.any_some, decide_eq_true_eq, hr.1, value_eq_iff, Option.some.injEq]
              constructor
              · exact fun he => ⟨ev, rfl, he.symm⟩
              · rintro ⟨_, rfl, he⟩
                exact he.symm

omit [Py] in
/-- The folded state agrees with itself when the view agrees with the evidence. -/
theorem Refines.viewAgrees_iff (h : Refines st view evidence) :
    st.viewAgrees = true ↔ Agree view evidence := by
  have hp := h.plan
  unfold RunState.viewAgrees
  cases hst : st.latestPlan with
  | none =>
      rw [hst] at hp
      cases hp
      exact iff_of_true rfl fun v hv => by cases hv
  | some entry =>
      rw [hst] at hp
      cases hp with
      | @some _ v hv =>
          rw [Option.all_some, List.all_eq_true]
          refine (forall_mem_iff hv.2 fun s p hs => h.stepAgrees_iff hs).trans ?_
          constructor
          · rintro hall v' ⟨⟩ sid e hmem
            exact hall (sid, e) hmem
          · intro hall p hmem
            exact hall v rfl p.1 p.2 hmem

/-- The plan that is shown agrees with the evidence after every event of the stored log. -/
def ShownAgrees (runId : String) (payloads : List Payload) : Prop :=
  ∀ n, 0 < n → n ≤ payloads.length →
    ∃ st, foldLog runId (payloads.take n) = .ok st ∧ st.viewAgrees = true

theorem shownAgrees_iff {runId : String} {log : List Event} {payloads : List Payload}
    (h : List.Forall₂ StoredAs log payloads) :
    ShownAgrees runId payloads ↔ ∀ pre, pre <+: log → Agree (foldView pre) (foldEvidence pre) := by
  have hlen := h.length_eq
  have htake : ∀ n, 0 < n → n ≤ log.length → ((∃ st, foldLog runId (payloads.take n) = .ok st ∧
      st.viewAgrees = true) ↔ Agree (foldView (log.take n)) (foldEvidence (log.take n))) := by
    intro n hpos hn
    have hne : log.take n ≠ [] := by
      intro hnil
      have hzero : (log.take n).length = 0 := by rw [hnil]; rfl
      rw [List.length_take] at hzero
      omega
    obtain ⟨st, hok, hst⟩ := foldLog_refines runId (List.forall₂_take n h) hne
    rw [← hst.viewAgrees_iff]
    constructor
    · rintro ⟨st', hok', ha⟩
      rw [hok] at hok'
      cases hok'
      exact ha
    · exact fun ha => ⟨st, hok, ha⟩
  constructor
  · intro hall pre hpre
    rcases Nat.eq_zero_or_pos pre.length with h0 | hpos
    · rw [List.length_eq_zero_iff.mp h0]
      exact fun v hv => by cases hv
    · have hle := hpre.length_le
      rw [List.prefix_iff_eq_take.mp hpre]
      exact (htake _ hpos hle).mp (hall _ hpos (by omega))
  · intro hall n hpos hn
    exact (htake n hpos (by omega)).mpr (hall _ (List.take_prefix n log))

end refinement

end JAgent
