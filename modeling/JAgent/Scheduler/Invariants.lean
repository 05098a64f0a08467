import JAgent.Core.Binding
import JAgent.Scheduler.Trans

/-! # Invariants of the plan, the aliases and the pending revision

What holds of the data of a run in every reachable state: the root plan has passed the
guardrail once the first round has started, aliases lead from root steps to steps that are not
root steps, repair candidates are steps of the plan without a normal result, and a revision
about to be merged was accepted in the context of the current results.

The round invariant of `JAgent.Scheduler.Rounds` and the history invariants build on these. -/

namespace JAgent

theorem identityAliases_get? {plan : DagPlan} {k a : String}
    (h : (identityAliases plan).get? k = some a) : k ∈ stepIds plan.steps ∧ a = k := by
  obtain ⟨i, hi, he⟩ := List.mem_map.mp (Lib.Dict.mem_of_get?_ofPairs h)
  cases he
  exact ⟨hi, rfl⟩

theorem canonical_identityAliases (plan : DagPlan) (sid : String) :
    canonical (identityAliases plan) sid = sid := by
  unfold canonical Lib.Dict.getD
  cases h : (identityAliases plan).get? sid with
  | none => rfl
  | some a => exact (identityAliases_get? h).2

variable [Py] {cfg : Config} {s t : State} {c : Choice}

/-- The data of a run between moves. -/
structure DataInv (cfg : Config) (s : State) : Prop where
  root : validate cfg.registry s.root [] [] = [] ∨ (s.plan = s.root ∧ s.pc.inRound = false)
  plan : s.pc.inRound = true → validate cfg.registry s.plan [] [] = []
  aliases : AliasesOk s.root s.aliases
  repairing : ∀ site k cs, s.pc = .repairing site k cs →
    ∀ c ∈ cs, c ∈ s.plan.steps ∧ normalAt s.results c.id = false
  merging : ∀ site k revised, s.pc = .merging site k revised →
    revised.steps ≠ [] ∧ plannerAccepts cfg s revised = true

namespace DataInv

/-- The root plan of a running round is valid. -/
theorem root_valid (h : DataInv cfg s) (hin : s.pc.inRound = true) :
    validate cfg.registry s.root [] [] = [] := by
  rcases h.root with h | ⟨_, h⟩
  · exact h
  · rw [hin] at h
    cases h

/-- A plain control point carries no obligation beyond the plan and the aliases. -/
theorem of_plain (hroot : validate cfg.registry s.root [] [] = [] ∨ (s.plan = s.root ∧ s.pc.inRound = false))
    (hplan : s.pc.inRound = true → validate cfg.registry s.plan [] [] = [])
    (haliases : AliasesOk s.root s.aliases) (hr : ∀ site k cs, s.pc ≠ .repairing site k cs)
    (hm : ∀ site k revised, s.pc ≠ .merging site k revised) : DataInv cfg s :=
  ⟨hroot, hplan, haliases, fun site k cs h => absurd h (hr site k cs),
    fun site k revised h => absurd h (hm site k revised)⟩

theorem start (plan : DagPlan) (results : Results) (contracts : List DeliveryContract)
    (log : List Event) (hist : List Obs) :
    DataInv cfg (State.start plan results contracts log hist) := by
  refine of_plain (.inr ⟨rfl, rfl⟩) (by simp [State.start, Pc.inRound]) ?_ (by simp [State.start])
    (by simp [State.start])
  exact ⟨fun k a h => (identityAliases_get? h).1, fun k a h => .inl (identityAliases_get? h).2⟩

end DataInv

/-- Annotating the results does not change what the planner accepts. -/
theorem plannerAccepts_mergeStepTasks {revised : DagPlan} {es : List Event} {pc : Pc}
    (h : plannerAccepts cfg s revised = true) :
    plannerAccepts cfg { s with
      log := s.log ++ es
      results := mergeStepTasks s.results revised
      pc := pc } revised = true := by
  unfold plannerAccepts at h ⊢
  simp only
  rw [idsWith_mergeStepTasks (fun _ _ => rfl), idsWith_mergeStepTasks (fun _ _ => rfl)]
  exact h

/-- **One move keeps the data invariant.** -/
theorem DataInv.trans (h : DataInv cfg s) (ht : Trans cfg s c t) : DataInv cfg t := by
  cases ht with
  | quiet hp hin _ =>
      refine of_plain ?_ (fun hi => h.plan (Pc.inRound_of_working (hin hi))) h.aliases (plain_ne hp).1
        (plain_ne hp).2
      rcases h.root with hr | ⟨hr, hpc⟩
      · exact .inl hr
      · refine .inr ⟨hr, ?_⟩
        cases hi : Pc.inRound _
        · rfl
        · rw [Pc.inRound_of_working (hin hi)] at hpc
          cases hpc
  | heal hwork _ hc =>
      have hin := Pc.inRound_of_working hwork
      refine ⟨.inl (h.root_valid hin), fun _ => h.plan hin, h.aliases, ?_, by simp⟩
      rintro site k cs ⟨⟩ c hmem
      rcases hc c hmem with hc | ⟨cs', hpc, hc⟩
      · exact mem_localRepairCandidates hc
      · exact h.repairing _ _ cs' hpc c hc
  | foreign _ => exact ⟨h.root, h.plan, h.aliases, h.repairing, h.merging⟩
  | enter hpc hv _ _ =>
      refine of_plain ?_ (fun _ => hv) h.aliases (by simp) (by simp)
      rcases h.root with hr | ⟨hr, _⟩
      · exact .inl hr
      · exact .inl (hr ▸ hv)
  | nextLayer hpc _ | move hpc _ _ | gateSkip hpc _ _ | call hpc _ _ | settle hpc | settleRetry hpc
  | layerDone hpc _ =>
      have hin : s.pc.inRound = true := by rw [hpc]; rfl
      exact of_plain (.inl (h.root_valid hin)) (fun _ => h.plan hin) h.aliases (by simp) (by simp)
  | repair hpc _ =>
      have hin : s.pc.inRound = true := by rw [hpc]; rfl
      exact of_plain (.inl (h.root_valid hin)) (by simp [Pc.inRound]) h.aliases (by simp) (by simp)
  | accept hwork hacc _ hpc' =>
      have hin := Pc.inRound_of_working hwork
      refine ⟨.inl (h.root_valid hin), fun _ => h.plan hin, h.aliases, ?_, ?_⟩
      · rintro site k cs hpc
        simp only at hpc
        rcases hpc' with hp | ⟨_, site', k', he⟩
        · exact absurd hpc ((plain_ne hp).1 site k cs)
        · rw [he] at hpc
          cases hpc
      · rintro site k revised hpc
        simp only at hpc
        rcases hpc' with hp | ⟨hne, site', k', he⟩
        · exact absurd hpc ((plain_ne hp).2 site k revised)
        · rw [he] at hpc
          cases hpc
          exact ⟨hne, plannerAccepts_mergeStepTasks hacc⟩
  | mergeFail hpc | mergeAnnounce hpc =>
      have hin : s.pc.inRound = true := by rw [hpc]; rfl
      exact of_plain (.inl (h.root_valid hin)) (fun _ => h.plan hin)
        (h.aliases.of_spec bindAliases_spec) (by simp) (by simp)
  | mergeAdopt hpc =>
      have hin : s.pc.inRound = true := by rw [hpc]; rfl
      exact of_plain (.inl (h.root_valid hin)) (by simp [adopt, Pc.inRound])
        (h.aliases.of_spec bindAliases_spec) (by simp [adopt]) (by simp [adopt])
  | announce hpc _ =>
      have hin : s.pc.inRound = true := by rw [hpc]; rfl
      exact of_plain (.inl (h.root_valid hin)) (by simp [adopt, Pc.inRound]) h.aliases
        (by simp [adopt]) (by simp [adopt])

/-- **The data invariant holds in every reachable state.** -/
theorem dataInv_of_reaches {plan : DagPlan} {results : Results} {contracts : List DeliveryContract}
    {log : List Event} {hist : List Obs}
    (h : Lib.Reaches (step cfg) (State.start plan results contracts log hist) s) : DataInv cfg s :=
  h.invariant (.start plan results contracts log hist) fun _ _ _ _ hi hs => hi.trans (step_trans hs)

/-! ### The pending merge -/

/-- The canonical id of a step once a revision is merged, in terms of the state before. -/
def State.canonicalWith (s : State) (revised : DagPlan) : String → String :=
  JAgent.canonicalWith s.root s.plan revised s.results s.aliases

/-- What a merge does to the aliases of the run. -/
theorem State.merge_spec (s : State) (revised : DagPlan) :
    BindSpec s.root s.plan revised s.aliases (s.merge revised).aliases := bindAliases_spec

namespace DataInv

/-- A revision about to be merged passed the guardrail in the context of the run. -/
theorem revised_valid (h : DataInv cfg s) {site : Site} {k : Round} {revised : DagPlan}
    (hpc : s.pc = .merging site k revised) :
    validate cfg.registry revised (Results.idsWith s.results StepResult.shouldNotRerun)
      (Results.idsWith s.results StepResult.outputAvailable) = [] := by
  obtain ⟨hne, hacc⟩ := h.merging site k revised hpc
  unfold plannerAccepts at hacc
  simpa [hne] using hacc

theorem aliases_merge (h : DataInv cfg s) (revised : DagPlan) :
    AliasesOk s.root (s.merge revised).aliases := h.aliases.of_spec (s.merge_spec revised)

theorem root_nodup (h : DataInv cfg s) (hin : s.pc.inRound = true) : (stepIds s.root.steps).Nodup :=
  nodup_of_validate (h.root_valid hin)

theorem canonical_merge (h : DataInv cfg s) (hin : s.pc.inRound = true) {revised : DagPlan}
    {sid : String} : canonical (s.merge revised).aliases sid = s.canonicalWith revised sid :=
  canonical_bindAliases (h.root_nodup hin)

theorem plan_nodup (h : DataInv cfg s) (hin : s.pc.inRound = true) : (stepIds s.plan.steps).Nodup :=
  nodup_of_validate (h.plan hin)

theorem revised_nodup (h : DataInv cfg s) {site : Site} {k : Round} {revised : DagPlan}
    (hpc : s.pc = .merging site k revised) : (stepIds revised.steps).Nodup :=
  nodup_of_validate (h.revised_valid hpc)

end DataInv
end JAgent
