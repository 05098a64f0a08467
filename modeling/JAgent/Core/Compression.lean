import JAgent.Core.RunState

/-! # Compression of the context

Archiving, pruning and checkpoints are recorded as events of the context aggregate.  `facts` is
the part of a run's snapshot that these events do not write; no case of the fold reads anything
else to compute it (`facts_foldPayload`), so the facts of a stream are those of the stream with
any of its context events deleted.  The working view of the shorter stream has the entries of the
longer one and those that were trimmed (`Trimmed`). -/

namespace JAgent

/-- The snapshot without the fields that context events write, and without the last sequence
number. -/
def RunState.facts (st : RunState) : RunState :=
  { st with
    seq := 0, thoughtHistory := [], toolResults := [], summary := none, keepRecentCount := 0
    lastCheckpointSeq := none, episodes := [] }

/-- The event belongs to the context aggregate. -/
def LogEvent.isContext (e : LogEvent) : Bool := e.payload.eventType = .context

/-- The second stream is the first one without some of its context events. -/
inductive ContextDeleted : List LogEvent → List LogEvent → Prop
  | nil : ContextDeleted [] []
  | keep (e : LogEvent) {es kept : List LogEvent} :
      ContextDeleted es kept → ContextDeleted (e :: es) (e :: kept)
  | delete {e : LogEvent} {es kept : List LogEvent} (h : e.isContext = true) :
      ContextDeleted es kept → ContextDeleted (e :: es) kept

/-! ### The facts -/

theorem facts_onLatestPlan (st : RunState) (planId : String)
    (f : PlanEntry → Except String PlanEntry) :
    (st.onLatestPlan planId f).map RunState.facts =
      (st.facts.onLatestPlan planId f).map RunState.facts := by
  have hplan : st.facts.latestPlan = st.latestPlan := rfl
  unfold RunState.onLatestPlan
  rw [hplan]
  split
  · rfl
  · split_ifs
    · split <;> rfl
    · rfl

section facts
variable [Py]

theorem facts_applyBlueprintEntry (planId : String) (seq : ℕ) (st : RunState) (s : Obj) :
    (applyBlueprintEntry planId seq st s).map RunState.facts =
      applyBlueprintEntry planId seq st.facts s := by
  have hrec : ∀ sid, st.facts.record sid planId seq = st.record sid planId seq := fun _ => rfl
  unfold applyBlueprintEntry
  split
  · rfl
  · split_ifs
    · rfl
    · simp only [hrec]
      split <;> rfl

theorem facts_applyPlanBlueprint (planId : String) (seq : ℕ) : ∀ (steps : List Obj) (st : RunState),
    (applyPlanBlueprint planId seq steps st).map RunState.facts =
      applyPlanBlueprint planId seq steps st.facts
  | [], st => rfl
  | s :: steps, st => by
      have hs := facts_applyBlueprintEntry planId seq st s
      unfold applyPlanBlueprint
      rw [← hs]
      cases applyBlueprintEntry planId seq st s with
      | error e => rfl
      | ok st' => exact facts_applyPlanBlueprint planId seq steps st'

/-- **The facts after an event are computed from the facts before it.** -/
theorem facts_foldPayload (st : RunState) (seq : ℕ) {payload : Payload}
    (h : payload.eventType ≠ .context) :
    (foldPayload st seq payload).map RunState.facts =
      (foldPayload st.facts seq payload).map RunState.facts := by
  cases payload with
  | contextCheckpointed checkpointSeq ref => simp [Payload.eventType] at h
  | episodeArchived episode keep refs => simp [Payload.eventType] at h
  | contextPruned refs count reason => simp [Payload.eventType] at h
  | toolCompleted p =>
      simp only [foldPayload]
      split <;> rfl
  | planCreated planId intent summary count steps =>
      simp only [foldPayload]
      rw [facts_applyPlanBlueprint, facts_applyPlanBlueprint]
      rfl
  | planRevised planId reason intent remaining steps tasks =>
      have hplan := facts_onLatestPlan { st with feedbacks := st.feedbacks.map (consumed seq) }
        planId fun entry => .ok (entry.revised reason intent remaining steps tasks)
      have hfacts : RunState.facts { st with feedbacks := st.feedbacks.map (consumed seq) } =
        { st.facts with feedbacks := st.facts.feedbacks.map (consumed seq) } := rfl
      rw [hfacts] at hplan
      simp only [foldPayload]
      revert hplan
      generalize RunState.onLatestPlan { st with feedbacks := st.feedbacks.map (consumed seq) }
        planId _ = left
      generalize RunState.onLatestPlan
        { st.facts with feedbacks := st.facts.feedbacks.map (consumed seq) } planId _ = right
      intro hplan
      cases left with
      | error e =>
          cases right with
          | error e' =>
              cases hplan
              rfl
          | ok u' => cases hplan
      | ok u =>
          cases right with
          | error e' => cases hplan
          | ok u' =>
              have hu : u.facts = u'.facts := Except.ok.inj hplan
              have htasks : ∀ v : RunState, RunState.facts { v with
                    stepTasks := tasks.foldl (fun d kv => d.set kv.1 kv.2) v.stepTasks } =
                  { v.facts with
                    stepTasks := tasks.foldl (fun d kv => d.set kv.1 kv.2) v.facts.stepTasks } :=
                fun _ => rfl
              simp only
              rw [facts_applyPlanBlueprint, facts_applyPlanBlueprint, htasks u, htasks u', hu]
  | planCompleted planId n m summary =>
      simp only [foldPayload]
      rw [facts_onLatestPlan]
      rfl
  | planFailed planId n m error =>
      simp only [foldPayload]
      rw [facts_onLatestPlan]
      rfl
  | stepStarted planId stepId toolName deps => exact facts_onLatestPlan _ planId _
  | stepCompleted planId stepId summary status error callId => exact facts_onLatestPlan _ planId _
  | stepFailed planId stepId error retryable toolName callId => exact facts_onLatestPlan _ planId _
  | stepSkipped planId stepId reason toolName => exact facts_onLatestPlan _ planId _
  | _ => rfl

/-- A context event keeps the facts and trims the working view. -/
theorem foldPayload_context (st : RunState) (seq : ℕ) {payload : Payload}
    (h : payload.eventType = .context) : ∃ u, foldPayload st seq payload = .ok u ∧
      u.facts = st.facts ∧ List.Sublist u.thoughtHistory st.thoughtHistory ∧
      List.Sublist u.toolResults st.toolResults := by
  cases payload with
  | contextCheckpointed checkpointSeq ref =>
      exact ⟨_, rfl, rfl, List.Sublist.refl _, List.Sublist.refl _⟩
  | episodeArchived episode keep refs =>
      exact ⟨_, rfl, rfl, List.filter_sublist, List.filter_sublist⟩
  | contextPruned refs count reason =>
      exact ⟨_, rfl, rfl, List.filter_sublist, List.filter_sublist⟩
  | _ => simp [Payload.eventType] at h

/-! ### The working view -/

/-- Both snapshots have the same working view. -/
def SameView (st u : RunState) : Prop :=
  u.thoughtHistory = st.thoughtHistory ∧ u.toolResults = st.toolResults

theorem sameView_foldPayload {st u : RunState} {seq : ℕ} {payload : Payload} (hp : payload.ofPlan)
    (h : foldPayload st seq payload = .ok u) : SameView st u := by
  obtain ⟨_, _, _, _, _, rfl, -⟩ := foldPayload_frame hp h
  exact ⟨rfl, rfl⟩

/-- **What an event adds to the working view** does not depend on the snapshot. -/
theorem view_foldPayload {st u : RunState} {seq : ℕ} {payload : Payload}
    (hc : payload.eventType ≠ .context) (h : foldPayload st seq payload = .ok u) :
    u.thoughtHistory = st.thoughtHistory ++ (thoughtOf seq payload).toList ∧
      u.toolResults = st.toolResults ++ (toolResultOf seq payload).toList := by
  by_cases hp : payload.ofPlan
  · obtain ⟨hthoughts, hresults⟩ := sameView_foldPayload hp h
    have hnone : thoughtOf seq payload = none ∧ toolResultOf seq payload = none := by
      cases payload <;> first
        | exact ⟨rfl, rfl⟩
        | simp [Payload.ofPlan, Payload.eventType] at hp
    rw [hnone.1, hnone.2, hthoughts, hresults]
    exact ⟨(List.append_nil _).symm, (List.append_nil _).symm⟩
  · cases payload with
    | contextCheckpointed | episodeArchived | contextPruned => exact absurd rfl hc
    | planCreated | planRevised | planCompleted | planFailed => exact absurd (.inl rfl) hp
    | stepStarted | stepCompleted | stepFailed | stepSkipped => exact absurd (.inr rfl) hp
    | toolCompleted p =>
        simp only [foldPayload] at h
        split at h
        · cases h
          simp [thoughtOf]
        · cases h
          simp [thoughtOf, RunState.setRecord]
    | _ =>
        simp only [foldPayload] at h
        cases h
        simp [thoughtOf, toolResultOf]

/-! ### Two streams -/

/-- The first snapshot has the facts of the second one, and no more in its working view. -/
structure Trimmed (st st' : RunState) : Prop where
  facts : st.facts = st'.facts
  thoughts : List.Sublist st.thoughtHistory st'.thoughtHistory
  results : List.Sublist st.toolResults st'.toolResults

omit [Py] in
theorem Trimmed.refl (st : RunState) : Trimmed st st := ⟨rfl, List.Sublist.refl _, List.Sublist.refl _⟩

/-- An event that both streams have. -/
theorem Trimmed.keep {runId : String} {st st' u : RunState} {e : LogEvent} (h : Trimmed st st')
    (hs : foldEvent runId st e = .ok u) : ∃ u', foldEvent runId st' e = .ok u' ∧ Trimmed u u' := by
  unfold foldEvent at hs ⊢
  split_ifs at hs ⊢ with hrun
  have hfacts : ∀ v : RunState, RunState.facts { v with seq := max v.seq e.seq } = v.facts :=
    fun _ => rfl
  by_cases hc : e.payload.eventType = .context
  · cases hpay : e.payload with
    | contextCheckpointed checkpointSeq ref =>
        rw [hpay] at hs
        cases hs
        exact ⟨_, rfl, h.facts, h.thoughts, h.results⟩
    | episodeArchived episode keep refs =>
        rw [hpay] at hs
        cases hs
        exact ⟨_, rfl, h.facts, h.thoughts.filter _, h.results.filter _⟩
    | contextPruned refs count reason =>
        rw [hpay] at hs
        cases hs
        exact ⟨_, rfl, h.facts, h.thoughts.filter _, h.results.filter _⟩
    | _ => simp [hpay, Payload.eventType] at hc
  · have hleft := facts_foldPayload { st with seq := max st.seq e.seq } e.seq hc
    have hright := facts_foldPayload { st' with seq := max st'.seq e.seq } e.seq hc
    rw [hs, hfacts, h.facts, ← hfacts st', ← hright] at hleft
    cases hu : foldPayload { st' with seq := max st'.seq e.seq } e.seq e.payload with
    | error err =>
        rw [hu] at hleft
        cases hleft
    | ok u' =>
        rw [hu] at hleft
        obtain ⟨ht, hr⟩ := view_foldPayload hc hs
        obtain ⟨ht', hr'⟩ := view_foldPayload hc hu
        refine ⟨u', rfl, Except.ok.inj hleft, ?_, ?_⟩
        · rw [ht, ht']
          exact h.thoughts.append (List.Sublist.refl _)
        · rw [hr, hr']
          exact h.results.append (List.Sublist.refl _)

/-- A context event that only the first stream has. -/
theorem Trimmed.delete {runId : String} {st st' u : RunState} {e : LogEvent} (h : Trimmed st st')
    (hc : e.isContext = true) (hs : foldEvent runId st e = .ok u) : Trimmed u st' := by
  unfold foldEvent at hs
  split_ifs at hs
  obtain ⟨v, hv, hf, ht, hr⟩ := foldPayload_context { st with seq := max st.seq e.seq } e.seq
    (by simpa [LogEvent.isContext] using hc)
  obtain rfl : v = u := Except.ok.inj (hv.symm.trans hs)
  exact ⟨hf.trans h.facts, ht.trans h.thoughts, hr.trans h.results⟩

theorem foldFrom_trimmed {runId : String} : ∀ {es kept : List LogEvent}, ContextDeleted es kept →
    ∀ {st st' u : RunState}, Trimmed st st' → foldFrom runId st es = .ok u →
      ∃ u', foldFrom runId st' kept = .ok u' ∧ Trimmed u u' := by
  intro es kept hdel
  induction hdel with
  | nil =>
      intro st st' u h hs
      cases hs
      exact ⟨st', rfl, h⟩
  | keep e _ ih =>
      intro st st' u h hs
      obtain ⟨v, hv, hs⟩ := foldFrom_cons_eq_ok.mp hs
      obtain ⟨v', hv', ht⟩ := h.keep hv
      rw [foldFrom, hv']
      exact ih ht hs
  | delete hc _ ih =>
      intro st st' u h hs
      obtain ⟨v, hv, hs⟩ := foldFrom_cons_eq_ok.mp hs
      exact ih (h.delete hc hv) hs

/-- Every event of an accepted stream is of the same run. -/
theorem runId_of_foldFrom {runId : String} : ∀ {es : List LogEvent} {st u : RunState},
    foldFrom runId st es = .ok u → ∀ e ∈ es, e.runId = runId
  | [], _, _, _, e, he => by cases he
  | e :: es, st, u, h, e', he => by
      obtain ⟨v, hv, h⟩ := foldFrom_cons_eq_ok.mp h
      rcases List.mem_cons.mp he with rfl | hmem
      · unfold foldEvent at hv
        split_ifs at hv with hrun
        exact not_ne_iff.mp hrun
      · exact runId_of_foldFrom h e' hmem

omit [Py] in
theorem ContextDeleted.subset {es kept : List LogEvent} (h : ContextDeleted es kept) :
    ∀ e ∈ kept, e ∈ es := by
  induction h with
  | nil =>
      intro e he
      exact he
  | keep e _ ih =>
      intro e' he'
      rcases List.mem_cons.mp he' with rfl | hmem
      · exact List.mem_cons_self
      · exact List.mem_cons_of_mem _ (ih e' hmem)
  | delete _ _ ih =>
      intro e' he'
      exact List.mem_cons_of_mem _ (ih e' he')

/-- The facts that compression must not touch. -/
structure SameFacts (st st' : RunState) : Prop where
  stepEvidence : st'.stepEvidence = st.stepEvidence
  status : st'.status = st.status
  pauseReason : st'.pauseReason = st.pauseReason
  planHistory : st'.planHistory = st.planHistory
  latestPlan : st'.latestPlan = st.latestPlan
  planBoundarySeqs : st'.planBoundarySeqs = st.planBoundarySeqs
  deliveryContracts : st'.deliveryContracts = st.deliveryContracts
  feedbacks : st'.feedbacks = st.feedbacks
  pendingConfirmations : st'.pendingConfirmations = st.pendingConfirmations
  toolCalls : st'.toolCalls = st.toolCalls
  completionEvidence : st'.completionEvidence = st.completionEvidence

omit [Py] in
theorem sameFacts_of_facts {st st' : RunState} (h : st.facts = st'.facts) : SameFacts st st' where
  stepEvidence := (congrArg RunState.stepEvidence h).symm
  status := (congrArg RunState.status h).symm
  pauseReason := (congrArg RunState.pauseReason h).symm
  planHistory := (congrArg RunState.planHistory h).symm
  latestPlan := (congrArg RunState.latestPlan h).symm
  planBoundarySeqs := (congrArg RunState.planBoundarySeqs h).symm
  deliveryContracts := (congrArg RunState.deliveryContracts h).symm
  feedbacks := (congrArg RunState.feedbacks h).symm
  pendingConfirmations := (congrArg RunState.pendingConfirmations h).symm
  toolCalls := (congrArg RunState.toolCalls h).symm
  completionEvidence := (congrArg RunState.completionEvidence h).symm

/-- **Compression cannot touch the facts.**  Deleting context events from an accepted stream
keeps it accepted, keeps every fact, and can only bring back thoughts and tool results. -/
theorem fold_without_context {es kept : List LogEvent} {st : RunState} (hfold : foldEvents es = .ok st)
    (hdel : ContextDeleted es kept) (hne : kept ≠ []) :
    ∃ st', foldEvents kept = .ok st' ∧ SameFacts st st' ∧
      List.Sublist st.thoughtHistory st'.thoughtHistory ∧
      List.Sublist st.toolResults st'.toolResults := by
  cases es with
  | nil => cases hfold
  | cons e es =>
      cases kept with
      | nil => exact absurd rfl hne
      | cons k kept =>
          have hfold' : foldFrom e.runId { runId := e.runId } (e :: es) = .ok st := hfold
          have hk : k.runId = e.runId :=
            runId_of_foldFrom hfold' k (hdel.subset k List.mem_cons_self)
          obtain ⟨st', hst', htrim⟩ := foldFrom_trimmed hdel (Trimmed.refl _) hfold'
          refine ⟨st', ?_, sameFacts_of_facts htrim.facts, htrim.thoughts, htrim.results⟩
          have hkept : foldEvents (k :: kept) = foldFrom k.runId { runId := k.runId } (k :: kept) := rfl
          rw [hkept, hk]
          exact hst'

end facts

section scenario
attribute [local instance] asciiPy

/-- A run whose only thought was pruned before it completed. -/
def prunedStream : List LogEvent :=
  [⟨"r", 1, .runStarted { intent := "hello" }⟩, ⟨"r", 2, .agentThought "think" none none⟩,
    ⟨"r", 3, .contextPruned [2] 1 "budget"⟩, ⟨"r", 4, .runCompleted { resultSummary := "done" }⟩]

/-- The stream without the pruning. -/
def unprunedStream : List LogEvent :=
  [⟨"r", 1, .runStarted { intent := "hello" }⟩, ⟨"r", 2, .agentThought "think" none none⟩,
    ⟨"r", 4, .runCompleted { resultSummary := "done" }⟩]

/-- Without the pruning the thought is back and the facts are the same. -/
theorem fold_without_pruning : ∃ st st', foldEvents prunedStream = .ok st ∧
    foldEvents unprunedStream = .ok st' ∧ SameFacts st st' ∧ st.thoughtHistory = [] := by
  obtain ⟨st, hst, hempty⟩ : ∃ st, foldEvents prunedStream = .ok st ∧ st.thoughtHistory = [] :=
    ⟨_, rfl, rfl⟩
  have hdel : ContextDeleted prunedStream unprunedStream :=
    .keep _ (.keep _ (.delete rfl (.keep _ .nil)))
  obtain ⟨st', hst', hfacts, _⟩ := fold_without_context hst hdel (by simp [unprunedStream])
  exact ⟨st, st', hst, hst', hfacts, hempty⟩

end scenario
end JAgent
