import Mathlib.Data.List.Induction
import JAgent.Scheduler.Rounds

/-! # What was executed

Results are kept by step id, actions change from revision to revision.  This module ties the two
together over the ghost history: a result that a step settles with is the answer to a call made
for the step the plan lists at that moment, or the step was refused before the call
(`RawInv`), and a result is either kept from before, or was just settled
(`Trans.result_cases`). -/

namespace JAgent

/-! ### The history -/

/-- The step whose execution under `sid` finished last. -/
def lastDone (hist : List Obs) (sid : String) : Option DagStep :=
  hist.foldl (fun acc o => match o with
    | .settle step r => if r.finished && step.id = sid then some step else acc
    | _ => acc) none

theorem lastDone_append_settle (hist : List Obs) (step : DagStep) (r : StepResult) (sid : String) :
    lastDone (hist ++ [Obs.settle step r]) sid =
      if r.finished = true ∧ step.id = sid then some step else lastDone hist sid := by
  unfold lastDone
  rw [List.foldl_append]
  simp

theorem lastDone_append_of_ne {o : Obs} (h : ∀ step r, o ≠ .settle step r) (hist : List Obs)
    (sid : String) : lastDone (hist ++ [o]) sid = lastDone hist sid := by
  unfold lastDone
  rw [List.foldl_append]
  cases o with
  | settle step r => exact absurd rfl (h step r)
  | _ => rfl

/-- A step finished under the id. -/
def DoneIn (hist : List Obs) (sid : String) : Prop :=
  ∃ step r, .settle step r ∈ hist ∧ r.finished = true ∧ step.id = sid

theorem exists_lastDone {hist : List Obs} {sid : String} (h : DoneIn hist sid) : ∃ d, lastDone hist sid = some d := by
  obtain ⟨step, r, hmem, hf, hid⟩ := h
  induction hist using List.reverseRecOn with
  | nil => cases hmem
  | append_singleton hist o ih =>
      cases o with
      | settle step' r' =>
          rw [lastDone_append_settle]
          split_ifs with hc
          · exact ⟨step', rfl⟩
          · rcases List.mem_append.mp hmem with hmem | hmem
            · exact ih hmem
            · rw [List.mem_singleton] at hmem
              cases hmem
              exact absurd ⟨hf, hid⟩ hc
      | call _ _ _ | adopt _ | repair _ =>
          rw [lastDone_append_of_ne (by simp)]
          exact ih (by simpa using hmem)

/-- The action was executed and ended with a normal result. -/
def ExecutedNormally (hist : List Obs) (step : DagStep) : Prop :=
  (∃ r, .settle step r ∈ hist ∧ r.stepNormal = true) ∧ ∃ input seen, .call step input seen ∈ hist

/-- The steps that were settled with a normal result. -/
def normalSteps (hist : List Obs) : List DagStep :=
  hist.filterMap fun o => match o with
    | .settle step r => if r.stepNormal then some step else none
    | _ => none

theorem mem_normalSteps {hist : List Obs} {step : DagStep} :
    step ∈ normalSteps hist ↔ ∃ r, .settle step r ∈ hist ∧ r.stepNormal = true := by
  unfold normalSteps
  rw [List.mem_filterMap]
  constructor
  · rintro ⟨o, ho, h⟩
    split at h
    next step' r =>
      split_ifs at h with hn
      cases h
      exact ⟨r, ho, hn⟩
    next => cases h
  · rintro ⟨r, ho, hn⟩
    exact ⟨.settle step r, ho, by simp [hn]⟩

theorem normalSteps_append_of_ne {o : Obs} (h : ∀ step r, o ≠ .settle step r) (hist : List Obs) :
    normalSteps (hist ++ [o]) = normalSteps hist := by
  unfold normalSteps
  rw [List.filterMap_append]
  cases o with
  | settle step r => exact absurd rfl (h step r)
  | _ => simp

theorem normalSteps_append_settle (hist : List Obs) (step : DagStep) (r : StepResult) :
    normalSteps (hist ++ [Obs.settle step r]) =
      normalSteps hist ++ if r.stepNormal then [step] else [] := by
  unfold normalSteps
  rw [List.filterMap_append]
  cases h : r.stepNormal <;> simp [h]

@[simp] theorem stepOr_id (plan : DagPlan) (sid : String) : (stepOr plan sid).id = sid := by
  unfold stepOr
  cases h : plan.steps.find? fun s => s.id = sid with
  | none => rfl
  | some s => simpa using List.find?_some h

theorem stepOr_of_mem {plan : DagPlan} (hn : (stepIds plan.steps).Nodup) {p : DagStep}
    (hp : p ∈ plan.steps) : stepOr plan p.id = p := by
  unfold stepOr
  cases h : plan.steps.find? fun s => s.id = p.id with
  | none => simpa using List.find?_eq_none.mp h p hp
  | some q =>
      have hq := List.find?_some h
      simp only [decide_eq_true_eq] at hq
      exact List.inj_on_of_nodup_map hn (List.mem_of_find?_eq_some h) hp hq

theorem stepOr_mem {plan : DagPlan} {sid : String} (h : sid ∈ stepIds plan.steps) :
    stepOr plan sid ∈ plan.steps := by
  unfold stepOr
  cases hf : plan.steps.find? fun s => s.id = sid with
  | none =>
      obtain ⟨p, hp, rfl⟩ := List.mem_map.mp h
      simpa using List.find?_eq_none.mp hf p hp
  | some q => exact List.mem_of_find?_eq_some hf

theorem adopt_hist (s : State) (plan : DagPlan) :
    (adopt s plan).hist = s.hist ++ [Obs.adopt plan.steps] := rfl

/-! ### Raw results -/

section raw
variable {cfg : Config} {s t : State} {c : Choice}

/-- The Tool Layer was called for the step the plan lists under `sid`. -/
def Called (s : State) (sid : String) (step : DagStep) : Prop :=
  step ∈ s.plan.steps ∧ step = stepOr s.plan sid ∧ ∃ input seen, .call step input seen ∈ s.hist

theorem Called.mono {sid : String} {step : DagStep} (h : Called s sid step) (hplan : t.plan = s.plan)
    (hhist : s.hist ⊆ t.hist) : Called t sid step := by
  obtain ⟨hmem, rfl, input, seen, hc⟩ := h
  exact ⟨hplan ▸ hmem, by rw [hplan], input, seen, hhist hc⟩

/-- The result of a step is an older one up to its annotation. -/
def KeptResult (s : State) (sid : String) (r : StepResult) : Prop :=
  ∃ r₀ ts, s.results.get? sid = some r₀ ∧ r = { r₀ with taskState := ts }

theorem keptResult_of_get? {sid : String} {r : StepResult} (h : s.results.get? sid = some r) :
    KeptResult s sid r := ⟨r, r.taskState, h, rfl⟩

theorem keptResult_of_cleared {sid : String} {r : StepResult} {aliases : Aliases} {steps : List DagStep}
    (h : (clearedResults s.results aliases steps).get? sid = some r) : KeptResult s sid r := by
  rw [get?_clearedResults] at h
  split_ifs at h
  exact keptResult_of_get? h

theorem keptResult_of_tasks {revised : DagPlan} {sid : String} {r : StepResult}
    (h : (mergeStepTasks s.results revised).get? sid = some r) : KeptResult s sid r := by
  rcases mergeStepTasks_get? s.results revised sid with ⟨_, hn⟩ | ⟨r₀, ts, hr₀, he⟩
  · rw [hn] at h
    cases h
  · rw [he, Option.some.injEq] at h
    exact ⟨r₀, ts, hr₀, h.symm⟩

/-- Every step of the history was refused or called. -/
def HistInv (s : State) : Prop :=
  ∀ step r, .settle step r ∈ s.hist → Refused r ∨ ∃ input seen, .call step input seen ∈ s.hist

/-- A normal step of the history was called. -/
theorem HistInv.called (h : HistInv s) {step : DagStep} {r : StepResult}
    (hmem : .settle step r ∈ s.hist) (hn : r.stepNormal = true) :
    ∃ input seen, .call step input seen ∈ s.hist :=
  (h step r hmem).resolve_left (not_refused_of_stepNormal hn)

variable [Py]

/-- The step was refused before the call, or the result answers a call with the property `C`. -/
def Answers (C : String → DagStep → Prop) (sid : String) (r : StepResult) : Prop :=
  Refused r ∨ ∃ step answer, C sid step ∧ r = dispatch step answer

/-- The calls and answers a phase holds, when every call has the property `C`. -/
def PhaseRaw (C : String → DagStep → Prop) : Phase → Prop
  | .executing _ flights =>
    (∀ sid step, flights.get? sid = some (.running step) → C sid step) ∧
      ∀ sid r, flights.get? sid = some (.returned (.ok r)) → Answers C sid r
  | .settling todo _ _ => ∀ sid r, (sid, .ok r) ∈ todo → Answers C sid r
  | .retrying todo _ step => ∀ x ∈ todo.head?, C x.1 step
  | .retried todo _ r => ∀ x ∈ todo.head?, Answers C x.1 r
  | _ => True

/-- The result comes from the Tool Layer, which was called for the step. -/
def Genuine (s : State) (sid : String) (r : StepResult) : Prop := Answers (Called s) sid r

/-- Every raw result of the current layer is genuine. -/
def RawInv (s : State) : Prop :=
  ∀ k layer ph, s.pc = .inLayer k layer ph → PhaseRaw (Called s) ph

section phases
variable {C D : String → DagStep → Prop}

theorem Answers.mono {sid : String} {r : StepResult} (h : Answers C sid r)
    (hC : ∀ step, C sid step → D sid step) : Answers D sid r := by
  rcases h with h | ⟨step, answer, hc, rfl⟩
  · exact .inl h
  · exact .inr ⟨step, answer, hC step hc, rfl⟩

theorem PhaseRaw.mono {ph : Phase} (h : PhaseRaw C ph) (hC : ∀ sid step, C sid step → D sid step) :
    PhaseRaw D ph := by
  cases ph with
  | executing toRun flights =>
      exact ⟨fun sid step hf => hC sid step (h.1 sid step hf), fun sid r hf => (h.2 sid r hf).mono (hC sid)⟩
  | settling todo pending failed => exact fun sid r hmem => (h sid r hmem).mono (hC sid)
  | retrying todo retries step => exact fun x hx => hC x.1 step (h x hx)
  | retried todo retries r => exact fun x hx => (h x hx).mono (hC x.1)
  | _ => trivial

/-- Noting a returned result in the table of flights. -/
theorem PhaseRaw.set_returned {toRun : List String} {flights : Lib.Dict String Flight} {sid : String}
    {raw : Raw} (h : PhaseRaw C (.executing toRun flights)) (hr : ∀ r, raw = .ok r → Answers C sid r) :
    PhaseRaw C (.executing toRun (flights.set sid (.returned raw))) := by
  constructor
  · intro sid' step hf
    rcases Lib.Dict.get?_set_cases hf with ⟨_, he⟩ | ⟨_, hf⟩
    · cases he
    · exact h.1 sid' step hf
  · intro sid' r hf
    rcases Lib.Dict.get?_set_cases hf with ⟨rfl, he⟩ | ⟨_, hf⟩
    · cases he
      exact hr r rfl
    · exact h.2 sid' r hf

theorem PhaseMove.raw {layer : List String} {ph ph' : Phase} (hm : PhaseMove layer ph ph')
    (h : PhaseRaw C ph) : PhaseRaw C ph' := by
  cases hm with
  | startDone toSkip => exact ⟨by simp, by simp⟩
  | refuse _ hr =>
      refine h.set_returned fun r he => ?_
      cases he
      exact .inl hr
  | ret answer hf =>
      refine h.set_returned fun r he => ?_
      cases he
      exact .inr ⟨_, answer, h.1 _ _ hf, rfl⟩
  | retError msg hf => exact h.set_returned fun r he => by cases he
  | gather _ hraw => exact fun sid r hmem => h.2 sid r (hraw sid (.ok r) hmem)
  | retryRefuse todo retries hr => exact fun x _ => .inl hr
  | retryRet todo retries step answer => exact fun x hx => .inr ⟨step, answer, h x hx, rfl⟩
  | _ => trivial

theorem CallMove.raw {sid : String} {step : DagStep} {ph ph' : Phase} (hm : CallMove sid step ph ph')
    (hc : C sid step) (h : PhaseRaw C ph) : PhaseRaw C ph' := by
  cases hm with
  | first _ =>
      constructor
      · intro sid' step' hf
        rcases Lib.Dict.get?_set_cases hf with ⟨rfl, he⟩ | ⟨_, hf⟩
        · cases he
          exact hc
        · exact h.1 sid' step' hf
      · intro sid' r hf
        rcases Lib.Dict.get?_set_cases hf with ⟨_, he⟩ | ⟨_, hf⟩
        · cases he
        · exact h.2 sid' r hf
  | retry cid todo retries =>
      intro x hx
      cases hx
      exact hc

end phases

/-- A prepared call is for the step the plan lists. -/
theorem stepOr_of_prepared {plan : DagPlan} {results : Results} {sid : String} {step : DagStep}
    {input : Obj} (h : prepareStep cfg.registry plan results sid = .call step input) :
    step = stepOr plan sid := by
  unfold prepareStep at h
  unfold stepOr
  split at h
  next => cases h
  next p hp =>
    rw [hp]
    repeat' split at h
    all_goals cases h
    rfl

theorem RawInv.of_inLayer {k : Round} {layer : List String} {ph : Phase}
    (hpc : s.pc = .inLayer k layer ph) (h : PhaseRaw (Called s) ph) : RawInv s := by
  intro k' layer' ph' h'
  rw [hpc] at h'
  cases h'
  exact h

theorem RawInv.of_other (h : ∀ k layer ph, s.pc ≠ .inLayer k layer ph) : RawInv s :=
  fun k layer ph hpc => absurd hpc (h k layer ph)

theorem RawInv.start (plan : DagPlan) (results : Results) (contracts : List DeliveryContract)
    (log : List Event) (hist : List Obs) : RawInv (State.start plan results contracts log hist) :=
  .of_other (by simp [State.start])

/-- **One move keeps the raw results genuine.** -/
theorem RawInv.trans (h : RawInv s) (ht : Trans cfg s c t) : RawInv t := by
  cases ht with
  | quiet hp _ _ =>
      refine .of_other fun k layer ph hpc => ?_
      simp only at hpc
      subst hpc
      cases hp
  | foreign _ => exact fun k layer ph hpc => h k layer ph hpc
  | nextLayer hpc _ | gateSkip hpc _ _ | settleRetry hpc => exact .of_inLayer rfl trivial
  | move hpc hm _ => exact .of_inLayer rfl (hm.raw (h _ _ _ hpc))
  | call hpc hc hprep =>
      refine .of_inLayer rfl (hc.raw ?_ ((h _ _ _ hpc).mono fun sid step hcalled => ?_))
      · exact ⟨(prepareStep_call hprep).1, stepOr_of_prepared hprep, _, _,
          List.mem_append_right _ List.mem_cons_self⟩
      · exact hcalled.mono rfl (List.subset_append_left _ _)
  | settle hpc =>
      refine .of_inLayer rfl fun sid r hmem => ?_
      refine (h _ _ _ hpc sid r (List.mem_cons_of_mem _ hmem)).mono fun step hcalled => ?_
      exact hcalled.mono rfl (by simp [settleState, State.observe, State.emit])
  | accept _ _ _ hpc' =>
      refine .of_other fun k layer ph hpc => ?_
      simp only at hpc
      subst hpc
      rcases hpc' with hp | ⟨_, site, k', he⟩
      · cases hp
      · cases he
  | mergeAdopt _ | announce _ _ => exact .of_other (by simp [adopt])
  | _ => exact .of_other (by simp)

/-! ### Results and history move together -/

theorem Genuine.settle {k : Round} {layer : List String} {sid : String} {raw : Raw}
    {todo : List (String × Raw)} {pending : List (String × String)} {failed : Bool} (h : RawInv s)
    (hpc : s.pc = .inLayer k layer (.settling ((sid, raw) :: todo) pending failed)) :
    Genuine s sid (settle k.planId k.done.length (stepOr s.plan sid).tool sid raw).result := by
  cases raw with
  | error msg => exact .inl (.inl rfl)
  | ok r =>
      rw [settle_result]
      exact h _ _ _ hpc sid r List.mem_cons_self

theorem Genuine.settleRetry {k : Round} {layer : List String} {sid cid : String}
    {todo : List (String × String)} {retries : ℕ} {r : StepResult} (h : RawInv s)
    (hpc : s.pc = .inLayer k layer (.retried ((sid, cid) :: todo) retries r)) : Genuine s sid r :=
  h _ _ _ hpc (sid, cid) rfl

/-- The move settles the step the plan lists under `sid` with the result `r`. -/
structure Settles (s t : State) (sid : String) (r : StepResult) : Prop where
  inRound : s.pc.inRound = true
  plan : t.plan = s.plan
  hist : t.hist = s.hist ++ [Obs.settle (stepOr s.plan sid) r]
  results : t.results = s.results.set sid r
  genuine : Genuine s sid r

theorem Settles.of_settle {k : Round} {layer : List String} {sid : String} {raw : Raw}
    {todo : List (String × Raw)} {pending : List (String × String)} {failed : Bool} {pc : Pc}
    (h : RawInv s) (hpc : s.pc = .inLayer k layer (.settling ((sid, raw) :: todo) pending failed)) :
    Settles s { settleState s k sid raw with pc := pc } sid
      (JAgent.settle k.planId k.done.length (stepOr s.plan sid).tool sid raw).result :=
  ⟨by rw [hpc]; rfl, rfl, rfl, rfl, .settle h hpc⟩

theorem Settles.of_settleRetry {k : Round} {layer : List String} {sid cid : String}
    {todo : List (String × String)} {retries : ℕ} {r : StepResult} {pc : Pc} (h : RawInv s)
    (hpc : s.pc = .inLayer k layer (.retried ((sid, cid) :: todo) retries r)) :
    Settles s { JAgent.settleRetry s k sid r with pc := pc } sid r :=
  ⟨by rw [hpc]; rfl, rfl, rfl, rfl, .settleRetry h hpc⟩

/-- **Where a result comes from**: it was there before, the gate skipped the step, or the move
settled it. -/
theorem Trans.result_cases (hraw : RawInv s) (ht : Trans cfg s c t) {sid : String} {r : StepResult}
    (h : t.results.get? sid = some r) :
    KeptResult s sid r ∨ r.execState = .skipped ∨ Settles s t sid r := by
  cases ht with
  | gateSkip hpc hs _ =>
      rcases Lib.Dict.get?_set_cases h with ⟨_, rfl⟩ | ⟨_, h⟩
      · exact .inr (.inl hs)
      · exact .inl (keptResult_of_get? h)
  | settle hpc =>
      rcases Lib.Dict.get?_set_cases h with ⟨rfl, rfl⟩ | ⟨_, h⟩
      · exact .inr (.inr (.of_settle hraw hpc))
      · exact .inl (keptResult_of_get? h)
  | settleRetry hpc =>
      rcases Lib.Dict.get?_set_cases h with ⟨rfl, rfl⟩ | ⟨_, h⟩
      · exact .inr (.inr (.of_settleRetry hraw hpc))
      · exact .inl (keptResult_of_get? h)
  | repair _ _ =>
      simp only [Lib.Dict.get?_pop] at h
      split_ifs at h
      exact .inl (keptResult_of_get? h)
  | accept _ _ _ _ => exact .inl (keptResult_of_tasks h)
  | mergeFail _ | mergeAnnounce _ | mergeAdopt _ => exact .inl (keptResult_of_cleared h)
  | _ => exact .inl (keptResult_of_get? h)

/-- **Where a settled step comes from**: it was settled before, or the move settles it. -/
theorem Trans.settle_mem (hraw : RawInv s) (ht : Trans cfg s c t) {step : DagStep} {r : StepResult}
    (h : .settle step r ∈ t.hist) :
    .settle step r ∈ s.hist ∨ ∃ sid, step = stepOr s.plan sid ∧ Settles s t sid r := by
  cases ht with
  | call _ _ _ => exact .inl (by simpa using h)
  | settle hpc =>
      rcases List.mem_append.mp h with h | h
      · exact .inl h
      · rw [List.mem_singleton] at h
        cases h
        exact .inr ⟨_, rfl, .of_settle hraw hpc⟩
  | settleRetry hpc =>
      rcases List.mem_append.mp h with h | h
      · exact .inl h
      · rw [List.mem_singleton] at h
        cases h
        exact .inr ⟨_, rfl, .of_settleRetry hraw hpc⟩
  | repair _ _ => exact .inl (by simpa using h)
  | mergeAdopt _ | announce _ _ => exact .inl (by simpa [adopt, State.observe, State.emit] using h)
  | _ => exact .inl h

/-- The history only grows. -/
theorem Trans.hist_subset (ht : Trans cfg s c t) : s.hist ⊆ t.hist := by
  cases ht with
  | call _ _ _ | repair _ _ => exact List.subset_append_left _ _
  | settle _ | settleRetry _ | mergeAdopt _ | announce _ _ => exact List.subset_append_left _ _
  | _ => exact List.Subset.refl _

theorem Genuine.not_cancelled {sid : String} {r : StepResult} (h : Genuine s sid r) :
    r.execState ≠ .cancelled := by
  rcases h with (h | h) | ⟨step, answer, _, rfl⟩
  · simp [h]
  · simp [h]
  · exact dispatch_execState step answer

/-- A normal result answers a call. -/
theorem Genuine.called {sid : String} {r : StepResult} (h : Genuine s sid r)
    (hn : r.stepNormal = true) : Called s sid (stepOr s.plan sid) := by
  rcases h with h | ⟨step, answer, hc, rfl⟩
  · exact absurd h (not_refused_of_stepNormal hn)
  · exact hc.2.1 ▸ hc

theorem HistInv.trans (h : HistInv s) (hraw : RawInv s) (ht : Trans cfg s c t) : HistInv t := by
  intro step r hmem
  rcases ht.settle_mem hraw hmem with hold | ⟨sid, rfl, hs⟩
  · refine (h step r hold).imp_right ?_
    rintro ⟨input, seen, hc⟩
    exact ⟨input, seen, ht.hist_subset hc⟩
  · rcases hs.genuine with hr | ⟨step, answer, ⟨_, rfl, input, seen, hc⟩, _⟩
    · exact .inl hr
    · exact .inr ⟨input, seen, ht.hist_subset hc⟩

end raw
end JAgent
