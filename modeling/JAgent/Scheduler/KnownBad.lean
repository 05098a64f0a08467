import JAgent.Scheduler.Replay

/-! # Known-bad steps that a revision leaves alone

After a merge the scheduler compares the evidence of the run with the merged plan and reports the
steps that have failed and that the revision does not address (`unresolvedKnownBadSteps`).  The report
tells the planner that these steps list the action again that already failed.

The evidence holds the steps of all plans of the run, while the comparison goes by id, with the inputs
of the current plan only.  A step that the merge has replaced, or that the revision has dropped, is in
the evidence and not in the merged plan, and is reported; so is a probe that ended with its negative
answer; and a step that the current plan does not list, or lists with an input it has not run with, is
compared with an input that is not the one that failed.  `StillThere` leaves these records out, and
the report is right exactly when no other record is left (`known_bad_report_real_iff`). -/

namespace JAgent

/-! ### The report -/

/-- `StepEvidence.step_normal`. -/
def StepEvidence.stepNormal (ev : StepEvidence) : Bool := execStateIsNormal ev.execState ev.probe

/-- The steps of a patch by id; a step without id is left out. -/
def patchById (patchSteps : List StepPayload) : Lib.Dict String StepPayload :=
  .ofPairs ((patchSteps.filter fun s => s.stepId ≠ "").map fun s => (s.stepId, s))

/-- The inputs the scheduler passes on: those of the current plan. -/
def originalInputs (current : DagPlan) : Lib.Dict String Obj :=
  .ofPairs (current.steps.map fun s => (s.id, s.input))

/-- What the merged plan lists under the id. -/
def listedAs (merged : DagPlan) (sid : String) : Option StepPayload :=
  (patchById (planStepsToPayload merged)).get? sid

section report
variable [Py]

/-- The step failed, and not only transiently. -/
def knownBad (ev : StepEvidence) : Bool :=
  (ev.execState = .unsuccessful || ev.execState = .failed) && !isTransient ev.error

/-- The patch lists the step with another tool, or with another input than the one that is known. -/
def addressed (ev : StepEvidence) (original : Option Obj) : Option StepPayload → Bool
  | none => false
  | some patch => patch.toolName ≠ "" && (patch.toolName ≠ ev.toolName ||
      original.any fun input => actionInputSignature patch.input ≠ actionInputSignature input)

/-- `unresolved_known_bad_steps`. -/
def unresolvedKnownBadSteps (prevEvidence : Evidence) (patchSteps : List StepPayload)
    (originalInputs : Lib.Dict String Obj) : List String :=
  ((prevEvidence.items.filter fun kv => knownBad kv.2 &&
    !addressed kv.2 (originalInputs.get? kv.1) ((patchById patchSteps).get? kv.1)).map
      Prod.fst).insertionSort (· ≤ ·)

/-- The report of the scheduler after a merge. -/
def knownBadReport (evidence : Evidence) (current merged : DagPlan) : List String :=
  unresolvedKnownBadSteps evidence (planStepsToPayload merged) (originalInputs current)

variable {evidence : Evidence} {current merged : DagPlan} {sid : String}

theorem mem_knownBadReport : sid ∈ knownBadReport evidence current merged ↔
    ∃ ev, evidence.get? sid = some ev ∧ knownBad ev = true ∧
      addressed ev ((originalInputs current).get? sid) (listedAs merged sid) = false := by
  unfold knownBadReport unresolvedKnownBadSteps listedAs
  rw [List.mem_insertionSort, List.mem_map]
  constructor
  · rintro ⟨⟨k, ev⟩, hin, rfl⟩
    obtain ⟨hitem, htest⟩ := List.mem_filter.mp hin
    rw [Bool.and_eq_true, Bool.not_eq_true'] at htest
    exact ⟨ev, Lib.Dict.mem_items_iff.mp hitem, htest⟩
  · rintro ⟨ev, hev, hbad, haddr⟩
    refine ⟨(sid, ev), List.mem_filter.mpr ⟨Lib.Dict.mem_items_iff.mpr hev, ?_⟩, rfl⟩
    rw [hbad, haddr]
    rfl

omit [Py] in
/-- What is listed under an id is a step of the plan. -/
theorem listedAs_mem {patch : StepPayload} (h : listedAs merged sid = some patch) :
    ∃ q ∈ merged.steps, q.tool = patch.toolName ∧ q.input = patch.input := by
  obtain ⟨p, hp, he⟩ := List.mem_map.mp (Lib.Dict.mem_of_get?_ofPairs h)
  obtain ⟨q, hq, rfl⟩ := List.mem_map.mp (List.mem_of_mem_filter hp)
  cases he
  exact ⟨q, hq, rfl, rfl⟩

/-! ### Real replays -/

/-- The id denotes a real replay: the record is not normal and not transient, the step has not been
replaced, and the merged plan still has the action that failed. -/
structure RealReplay (evidence : Evidence) (m : Merge) (ran : String → DagStep) (sid : String) : Prop where
  record : ∃ ev, evidence.get? sid = some ev ∧ ev.stepNormal = false ∧ isTransient ev.error = false
  notReplaced : canonical m.aliases sid = sid
  again : ∃ q ∈ m.plan.steps, stepSignature q = stepSignature (ran sid)

/-- A record of a step that the merged plan still has as it failed: it is no answer of a probe, the
step has not been replaced, and either the merged plan lists it while the current plan lists it as it
ran, or the action is somewhere in the merged plan. -/
structure StillThere (current : DagPlan) (m : Merge) (ran : DagStep) (sid : String) (ev : StepEvidence) :
    Prop where
  notAnswered : ¬(ev.execState = .unsuccessful ∧ ev.probe = true)
  notReplaced : canonical m.aliases sid = sid
  kept : ((∃ patch, listedAs m.plan sid = some patch ∧ patch.toolName ≠ "") ∧
      ∃ input, (originalInputs current).get? sid = some input ∧
        actionSignature ev.toolName input = stepSignature ran) ∨
    ∃ q ∈ m.plan.steps, stepSignature q = stepSignature ran

/-- A listed step that is not addressed has the tool of the record and the input of the current plan. -/
theorem signature_of_not_addressed {ev : StepEvidence} {patch : StepPayload} {input : Obj}
    (htool : patch.toolName ≠ "") (h : addressed ev (some input) (some patch) = false) :
    actionSignature patch.toolName patch.input = actionSignature ev.toolName input := by
  simp only [addressed] at h
  rw [decide_eq_true htool, Bool.true_and, Bool.or_eq_false_iff, Option.any_some] at h
  have htools : patch.toolName = ev.toolName := by simpa using h.1
  have hinputs : actionInputSignature patch.input = actionInputSignature input := by simpa using h.2
  unfold actionSignature
  rw [htools, hinputs]

omit [Py] in
theorem stepNormal_iff_answered {ev : StepEvidence} (h : ev.execState = .unsuccessful ∨ ev.execState = .failed) :
    ev.stepNormal = true ↔ ev.execState = .unsuccessful ∧ ev.probe = true := by
  unfold StepEvidence.stepNormal execStateIsNormal
  rcases h with h | h
  · simp [h]
  · simp [h]

theorem knownBad_iff {ev : StepEvidence} : knownBad ev = true ↔
    (ev.execState = .unsuccessful ∨ ev.execState = .failed) ∧ isTransient ev.error = false := by
  simp [knownBad]

end report

/-! ### A read that is replaced -/

section scenario

/-- The step that settled, if it has the id. -/
def Obs.settledAs (sid : String) : Obs → Option DagStep
  | .settle q _ => if q.id = sid then some q else none
  | _ => none

/-- The step with the id as it last settled. -/
def lastRan (hist : List Obs) (sid : String) : DagStep :=
  ((hist.filterMap (Obs.settledAs sid)).getLast?).getD {}

/-- A test for a report of a step that the pending merge replaces. -/
def reportsReplaced [Py] (sid : String) (s : State) : Bool :=
  match s.pc with
  | .merging .layerFailure _ revised =>
    (knownBadReport (foldEvidence s.log) s.plan (s.merge revised).plan).contains sid &&
      canonical (s.merge revised).aliases sid ≠ sid
  | _ => false

theorem exists_of_reportsReplaced [Py] {sid : String} {s : State} (h : reportsReplaced sid s = true) :
    ∃ k revised, s.pc = .merging .layerFailure k revised ∧
      sid ∈ knownBadReport (foldEvidence s.log) s.plan (s.merge revised).plan ∧
      canonical (s.merge revised).aliases sid ≠ sid := by
  unfold reportsReplaced at h
  split at h
  next k revised hpc =>
    rw [Bool.and_eq_true, decide_eq_true_eq, List.contains_iff_mem] at h
    exact ⟨k, revised, hpc, h⟩
  next => cases h

attribute [local instance] asciiPy

end scenario
end JAgent
