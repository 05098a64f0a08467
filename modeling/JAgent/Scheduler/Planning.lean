import JAgent.Core.Planner
import JAgent.Scheduler.Machine

/-! # The revisions that the planner returns

The machine of the scheduler takes a revision as a choice of the environment, and is enabled only where the
revision is one that `Planner.revise` could return (`plannerAccepts`).  `revision_taken` shows that nothing
is lost by this: whatever the model answers, the plan that `revise` returns is one that the machine takes
when it waits for a revision. -/

namespace JAgent

section revision
variable {W : Type} [Py] {cfg : Config} {s : State}

/-- A plan in the context of the run, or one without steps, is accepted. -/
theorem plannerAccepts_of {p : DagPlan} (h : p.steps = [] ∨ validate cfg.registry p
    (Results.idsWith s.results StepResult.shouldNotRerun)
    (Results.idsWith s.results StepResult.outputAvailable) = []) : plannerAccepts cfg s p = true := by
  rw [plannerAccepts, Bool.or_eq_true]
  obtain h | h := h
  · exact .inl (List.isEmpty_iff.mpr h)
  · exact .inr (List.isEmpty_iff.mpr h)

/-- A revision that is accepted is taken. -/
theorem stepRevising_of_accepted {p : DagPlan} (h : plannerAccepts cfg s p = true) (site : Site) (k : Round)
    (attempt : ℕ) : (stepRevising cfg s site k attempt (.revise (some p))).isSome = true := by
  rw [stepRevising, if_pos h]
  dsimp only
  generalize (if (findDegenerateRevisedSteps s.plan s.results p).isEmpty = true then invariantErrors cfg s p
    else []) = invErrors
  split_ifs
  · rfl
  · cases site <;> rfl
  · rfl
  · rfl

/-- **Whatever the model answers, the scheduler takes the revision.**  A call of `revise` asks the model at
most `maxPlanRetries + 1` times, tells it why its last answer was refused and records what the guardrail
refused; a plan that it returns carries the intent of the user, is accepted in the context of the results,
and keeps the declared operations of the current plan if it has no steps; and the machine of the scheduler
has a step for it whenever it waits for a revision. -/
theorem revision_taken (cfg : Config) (pl : Planner W) (s : State) (prompt : String)
    (w : W × List PlanRejection) :
    let planner := { pl with registry := cfg.registry }
    let executed := Results.idsWith s.results StepResult.shouldNotRerun
    Consulted planner "revise" prompt (planner.reviewRevision s.plan executed
        (Results.idsWith s.results StepResult.outputAvailable)) w (planner.revise s.plan s.results prompt w) ∧
      ∀ p, (planner.revise s.plan s.results prompt w).1 = some (.result p) →
        p.userIntent = s.plan.userIntent ∧
        (p.steps = [] → p.declaredOperations = s.plan.declaredOperations) ∧
        (∀ t ∈ p.stepTasks, KnownTask executed t) ∧ plannerAccepts cfg s p = true ∧
        ∀ site k attempt, s.pc = .revising site k attempt →
          ∃ s', step cfg s (.revise (some p)) = some s' := by
  intro planner executed
  have hconsulted : Consulted planner "revise" prompt (planner.reviewRevision s.plan executed
      (Results.idsWith s.results StepResult.outputAvailable)) w (planner.revise s.plan s.results prompt w) :=
    consulted planner "revise" prompt (reasoned_reviewRevision planner s.plan executed _) w
  refine ⟨hconsulted, fun p hp => ?_⟩
  obtain ⟨front, last, -, hreview⟩ := hconsulted.result hp
  obtain ⟨huser, htasks, hcase⟩ := fit_reviewRevision hreview
  have haccepts : plannerAccepts cfg s p = true := by
    apply plannerAccepts_of
    obtain ⟨hempty, -⟩ | ⟨-, hvalid⟩ := hcase
    · exact .inl hempty
    · exact .inr hvalid
  refine ⟨huser, fun hempty => ?_, htasks, haccepts, fun site k attempt hpc => ?_⟩
  · obtain ⟨-, hdeclared⟩ | ⟨hne, -⟩ := hcase
    · exact hdeclared
    · exact absurd hempty hne
  · have hstep : step cfg s (.revise (some p)) = stepRevising cfg s site k attempt (.revise (some p)) := by
      simp only [step, hpc]
    rw [hstep]
    exact Option.isSome_iff_exists.mp (stepRevising_of_accepted haccepts site k attempt)

end revision

end JAgent
