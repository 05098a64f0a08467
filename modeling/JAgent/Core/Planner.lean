import JAgent.Core.PlanGuardrail
import JAgent.Core.PlanParsing
import JAgent.Lib.Dialogue

/-! # The planner

The planner asks the model for a plan, for a revision or for a repair of one step, and asks again, with the
reason, when the answer cannot be used: at most `maxPlanRetries + 1` times.  An answer that is a plan but
does not pass the guardrail is recorded as a rejection.

All three are dialogues (`Lib.Dialogue`) that differ in what they make of an answer (`Review`).
`planner_plans` says what a call of `plan` asks, records and returns, `local_repair_proposed` the same of
`propose_local_repair`.  The system prompts are parameters. -/

namespace JAgent

/-! ### The texts of a retry -/

/-- `build_step_schema_text`. -/
def stepSchemaText : String := join "\n" [
  "Top-level JSON MUST contain:",
  "  - \"intent\" (string, required): a one-sentence summary of what this plan aims to accomplish.",
  "    Rephrase the user's goal in your own words — DO NOT copy-paste the user intent verbatim.",
  "  - \"steps\" (array): list of step objects. Use [] for no-action plans.",
  "  - \"declared_operations\" (array of objects, recommended): the operations YOU declare this plan",
  "    covers — a LLM self-check declaration, NOT the user's delivery contract. Each item is",
  "    \x7b\"tool\": \"<tool>\", \"input\": \x7bkey: value\x7d\x7d declaring a covered operation",
  "    (e.g. \x7b\"tool\": \"file_op\", \"input\": \x7b\"operation\": \"write\", \"path\": \"x.txt\"\x7d\x7d).",
  "    The system uses it ONLY to check that your plan is self-consistent; it never authorizes",
  "    new side effects and never decides completion. Real delivery requirements are enforced",
  "    by the trusted delivery contracts. Do NOT omit operations the user explicitly requested",
  "    (creating/writing/deleting files, fetching URLs, etc.).",
  "",
  "Each step MUST be a JSON object with exactly these fields:",
  "  - \"id\" (string, required): unique identifier, e.g. \"s1\"",
  "  - \"tool\" (string, required): tool name from the available tools list",
  "  - \"input\" (object, required): ALL parameters go inside this object.",
  "    NEVER put parameters like 'action', 'url', 'query' at the step level.",
  "    Good: \x7b\"id\": \"s1\", \"tool\": \"http_request\", \"input\": \x7b\"action\": \"GET\", \"url\": \"...\"\x7d\x7d",
  "    Bad:  \x7b\"id\": \"s1\", \"tool\": \"http_request\", \"action\": \"GET\", \"url\": \"...\"\x7d",
  "  - \"depends_on\" (array of strings, optional): step dependencies for DAG ordering",
  "  - \"description\" (string, optional): what this step does",
  "  - \"probe\" (boolean, optional, v2.2): set true ONLY when the step's goal is to",
  "    CHECK something and \"not found / does not exist\" IS the correct answer",
  "    (e.g. verifying an endpoint, checking a flag). Only read-only / query tools",
  "    may be marked probe — the system rejects plans that mark a mutating tool as",
  "    probe. A probe step that returns \"not found\" counts as normally completed.",
  "",
  "No other fields are allowed at the step level."]

/-- `retry_prompt`. -/
def retryPrompt (lastError : String) : String :=
  "Your previous response had a format error:\n" ++ lastError ++ "\n\n" ++
    "Please fix this and output ONLY valid JSON.\n" ++
    "Remember the required format:\n" ++ stepSchemaText

/-- `local_repair_retry_prompt`. -/
def localRepairRetryPrompt (lastError : String) : String :=
  "Your previous local-repair response had a format error:\n" ++ lastError ++ "\n\n" ++
    "Re-respond with ONLY valid JSON of this exact shape: " ++
    "\x7b\"tool_name\": \"<allowed_tool>\", \"input\": \x7b<key>: <value>\x7d\x7d.\n" ++
    "If NO allowed tool can repair the step, return \x7b\"tool_name\": \"\"\x7d."

/-! ### The planner -/

/-- A message to the model. -/
structure Message where
  role : String
  content : String
deriving DecidableEq

/-- `PlanRejectedPayload`. -/
structure PlanRejection where
  stage : String
  attempt : ℕ
  reasons : List String
  recovered : Bool
deriving DecidableEq

/-- What comes back from the model: an exception or a text. -/
abbrev ModelAnswer := Except String String

/-- The planner; `recording` holds where it has a store and the run an id. -/
structure Planner (W : Type) where
  llm : List Message → W → ModelAnswer × W
  registry : Registry
  decoding : Decoding
  maxPlanRetries : ℕ := 2
  recording : Bool := true

/-- What the planner makes of an answer. -/
inductive Review (β : Type) where
  | raised (why : String)
  | unreadable (reason : String)
  | invalid (errors : List PlanError)
  | fit (result : β)

/-- How a call ends that does not run out of attempts. -/
inductive CallOutcome (β : Type) where
  | result (result : β)
  | raised (why : String)
deriving DecidableEq

/-- The messages of an attempt. -/
def attemptMessages (prompt : String) (retry : String → String) (lastError : String) : List Message :=
  ⟨"system", prompt⟩ :: if lastError = "" then [] else [⟨"user", retry lastError⟩]

namespace Planner
variable {W : Type} [Py] (pl : Planner W)

/-- The model; it does not touch the rejections that are recorded. -/
def ask (messages : List Message) (s : W × List PlanRejection) : ModelAnswer × W × List PlanRejection :=
  let (answer, w) := pl.llm messages s.1
  (answer, w, s.2)

/-- `"; ".join(errors)`. -/
def joined (errors : List PlanError) : String := join "; " (errors.map PlanError.message)

/-- `record_plan_rejection`, for the answer to an attempt. -/
def rejection {β : Type} (stage : String) (attempt : ℕ) : Review β → List PlanRejection
  | .invalid errors =>
      if pl.recording then
        [⟨stage, attempt, errors.map PlanError.message, attempt < pl.maxPlanRetries + 1⟩]
      else []
  | _ => []

/-- The loop over the attempts: the answers are reviewed, and each one that is refused is answered with its
reason. -/
def attemptsAt {β : Type} (stage prompt : String) (review : ModelAnswer → Review β) :
    Lib.Dialogue (List Message) ModelAnswer String (CallOutcome β) (W × List PlanRejection) where
  question := attemptMessages prompt retryPrompt
  judge answer := match review answer with
    | .raised why => .taken (.raised why)
    | .unreadable reason => .refused reason
    | .invalid errors => .refused (joined errors)
    | .fit result => .taken (.result result)
  note attempt answer s := (s.1, s.2 ++ pl.rejection stage attempt (review answer))

/-- What the guardrail makes of a plan. -/
def guarded (plan : DagPlan) (completed available : List String) : Review DagPlan :=
  match validate pl.registry plan completed available with
  | [] => .fit plan
  | errors => .invalid errors

/-- What is made of an answer: it is read, and a plan is settled. -/
def reviewed (executed : List String) (settle : DagPlan → Review DagPlan) : ModelAnswer → Review DagPlan
  | .error why => .raised why
  | .ok response => match parsePlanResponse pl.decoding response executed with
    | .raised => .raised "ValidationError"
    | .rejected reason => .unreadable reason
    | .plan plan => settle plan

/-- What `plan` makes of an answer. -/
def reviewPlan (intent : String) : ModelAnswer → Review DagPlan :=
  pl.reviewed [] fun plan => pl.guarded { plan with userIntent := intent } [] []

/-- `plan`: the outcome, the exchanges with the model and the rejections that are recorded. -/
def plan (intent prompt : String) (s : W × List PlanRejection) :
    Option (CallOutcome DagPlan) × List (Lib.Exchange (List Message) ModelAnswer) × W × List PlanRejection :=
  (pl.attemptsAt "plan" prompt (pl.reviewPlan intent)).hold pl.ask 1 (pl.maxPlanRetries + 1) "" s

/-- The plan that `revise` returns for an answer without steps. -/
def completePlan (current revised : DagPlan) : DagPlan :=
  { revised with steps := [], userIntent := current.userIntent, declaredOperations := current.declaredOperations }

/-- What `revise` makes of a plan that it has read. -/
def settleRevision (current : DagPlan) (executed available : List String) (revised : DagPlan) : Review DagPlan :=
  let revised := if revised.userIntent = "" then { revised with userIntent := current.userIntent } else revised
  if revised.steps = [] then .fit (completePlan current revised)
  else pl.guarded revised executed available

/-- What `revise` makes of an answer. -/
def reviewRevision (current : DagPlan) (executed available : List String) : ModelAnswer → Review DagPlan :=
  pl.reviewed executed (pl.settleRevision current executed available)

/-- `revise`. -/
def revise (current : DagPlan) (results : Results) (prompt : String) (s : W × List PlanRejection) :
    Option (CallOutcome DagPlan) × List (Lib.Exchange (List Message) ModelAnswer) × W × List PlanRejection :=
  (pl.attemptsAt "revise" prompt (pl.reviewRevision current (Results.idsWith results StepResult.shouldNotRerun)
    (Results.idsWith results StepResult.outputAvailable))).hold pl.ask 1 (pl.maxPlanRetries + 1) "" s

/-- The loop of `propose_local_repair`: the first exception of the model ends it without a proposal. -/
def repairAttempts (prompt : String) :
    Lib.Dialogue (List Message) ModelAnswer String (Option LocalRepairProposal) (W × List PlanRejection) where
  question := attemptMessages prompt localRepairRetryPrompt
  judge
    | .error _ => .taken none
    | .ok response => match parseLocalRepairProposal pl.decoding response with
      | .proposal proposal => .taken (some proposal)
      | .noRepair => .taken none
      | .rejected reason => .refused reason
  note _ _ s := s

/-- `propose_local_repair`. -/
def proposeLocalRepair (prompt : String) (s : W × List PlanRejection) :
    Option LocalRepairProposal × List (Lib.Exchange (List Message) ModelAnswer) × W × List PlanRejection :=
  let held := (pl.repairAttempts prompt).hold pl.ask 1 (pl.maxPlanRetries + 1) "" s
  (held.1.getD none, held.2)

end Planner

/-! ### Every refusal has a reason -/

section reasons
variable [Py]

omit [Py] in
theorem append_ne_empty {a : String} (h : a ≠ "") (b : String) : a ++ b ≠ "" := by
  intro hempty
  rw [String.append_eq_empty_iff] at hempty
  exact h hempty.1

theorem PlanError.message_ne_empty (e : PlanError) : e.message ≠ "" := by
  cases e <;> delta PlanError.message <;> dsimp only
  all_goals repeat with_reducible refine append_ne_empty ?_ _
  all_goals decide

/-- The reasons of a refusal are not empty. -/
theorem Planner.joined_ne_empty {errors : List PlanError} (h : errors ≠ []) : joined errors ≠ "" := by
  cases errors with
  | nil => exact absurd rfl h
  | cons e errors =>
      cases errors with
      | nil => exact e.message_ne_empty
      | cons e' errors =>
          rw [joined, List.map_cons, List.map_cons, join]
          exact append_ne_empty (append_ne_empty e.message_ne_empty _) _
          exact List.cons_ne_nil _ _

variable {d : Decoding}

theorem validateStep_ne_empty {o : Obj} {i : ℕ} {err : String} (h : validateStep d o i = some err) : err ≠ "" := by
  unfold validateStep at h
  split_ifs at h
  obtain rfl := Option.some.inj h
  repeat with_reducible refine append_ne_empty ?_ _
  decide

theorem readSteps_ne_empty {raw : List Value} {i : ℕ} {err : String} (h : readSteps d i raw = .error err) :
    err ≠ "" := by
  induction raw generalizing i with
  | nil => cases h
  | cons v raw ih =>
      rw [readSteps] at h
      cases hread : readStep d i v with
      | error err' =>
          rw [hread] at h
          cases h
          cases v with
          | obj o =>
              rw [readStep] at hread
              cases hvalid : validateStep d (renameParameters o) i with
              | none =>
                  simp only [hvalid] at hread
                  cases hread
              | some err' =>
                  simp only [hvalid] at hread
                  cases hread
                  exact validateStep_ne_empty hvalid
          | null | bool | int | float | str | arr =>
              cases hread
              exact append_ne_empty (append_ne_empty (by decide) _) _
      | ok s =>
          simp only [hread] at h
          cases hrest : readSteps d (i + 1) raw with
          | error err' =>
              rw [hrest] at h
              cases h
              exact ih hrest
          | ok rest =>
              rw [hrest] at h
              cases h

/-- A rejected answer is rejected with a reason. -/
theorem parsePlanResponse_reason {response reason : String} {executed : List String}
    (h : parsePlanResponse d response executed = .rejected reason) : reason ≠ "" := by
  unfold parsePlanResponse at h
  split at h
  · cases h
    decide
  · cases h
    exact append_ne_empty (by decide) _
  · split at h
    · split at h
      · rename_i err hsteps
        cases h
        exact readSteps_ne_empty hsteps
      · split at h
        · cases h
        · cases h
    · cases h
      decide
  · cases h
    decide

theorem parseLocalRepairProposal_reason {response reason : String}
    (h : parseLocalRepairProposal d response = .rejected reason) : reason ≠ "" := by
  unfold parseLocalRepairProposal at h
  split at h
  · cases h
    decide
  · cases h
    decide
  · dsimp only at h
    split_ifs at h
    split at h
    · cases h
    · cases h
      exact append_ne_empty (append_ne_empty (by decide) _) _
  · cases h
    decide

/-- A proposal names a tool. -/
theorem toolName_of_proposal {response : String} {p : LocalRepairProposal}
    (h : parseLocalRepairProposal d response = .proposal p) : p.toolName ≠ "" := by
  unfold parseLocalRepairProposal at h
  split at h
  · cases h
  · cases h
  · dsimp only at h
    split_ifs at h with htool
    split at h
    · cases h
      exact htool
    · cases h
  · cases h

end reasons

/-! ### What a call does -/

section calls
variable {W : Type} [Py] {pl : Planner W}

/-- What a call of the planner asks, records and returns: it asks at most as often as it may; the first
question is the prompt, and each later one adds the reason for which the answer before it was refused; the
rejections that it records are those of the answers that the guardrail refused, under their numbers; and it
ends with the first answer that is not refused. -/
structure Consulted {β : Type} (pl : Planner W) (stage prompt : String) (review : ModelAnswer → Review β)
    (s : W × List PlanRejection)
    (out : Option (CallOutcome β) × List (Lib.Exchange (List Message) ModelAnswer) × W × List PlanRejection) :
    Prop where
  bounded : out.2.1.length ≤ pl.maxPlanRetries + 1
  first : ∀ x : Lib.Exchange (List Message) ModelAnswer, out.2.1[0]? = some x →
    x.question = [⟨"system", prompt⟩]
  told : ∀ (i : ℕ) (x y : Lib.Exchange (List Message) ModelAnswer), out.2.1[i]? = some x →
    out.2.1[i + 1]? = some y → ∃ reason : String, reason ≠ "" ∧
    (review x.answer = .unreadable reason ∨
      ∃ errors, review x.answer = .invalid errors ∧ reason = Planner.joined errors) ∧
    y.question = [⟨"system", prompt⟩, ⟨"user", retryPrompt reason⟩]
  recorded : out.2.2.2 = s.2 ++
    Lib.Dialogue.notes (fun i answer => pl.rejection stage i (review answer)) 1 out.2.1
  ends : (pl.attemptsAt stage prompt review).Ends (pl.maxPlanRetries + 1) out.1 out.2.1

/-- A review gives every refusal a reason. -/
structure Reasoned {β : Type} (review : ModelAnswer → Review β) : Prop where
  unreadable : ∀ answer reason, review answer = .unreadable reason → reason ≠ ""
  invalid : ∀ answer errors, review answer = .invalid errors → errors ≠ []

theorem consulted {β : Type} (pl : Planner W) (stage prompt : String) {review : ModelAnswer → Review β}
    (h : Reasoned review) (s : W × List PlanRejection) : Consulted pl stage prompt review s
      ((pl.attemptsAt stage prompt review).hold pl.ask 1 (pl.maxPlanRetries + 1) "" s) := by
  have hfollows : (pl.attemptsAt stage prompt review).Follows ""
      ((pl.attemptsAt stage prompt review).hold pl.ask 1 (pl.maxPlanRetries + 1) "" s).2.1 :=
    Lib.Dialogue.hold_follows _ _ _ _
  refine ⟨Lib.Dialogue.hold_length _ _ _ _, fun x hx => hfollows.head hx, ?_, ?_,
    Lib.Dialogue.hold_ends _ _ _ _⟩
  · intro i x y hx hy
    obtain ⟨reason, hjudge, hquestion⟩ := hfollows.next hx hy
    have hreason : reason ≠ "" ∧ (review x.answer = .unreadable reason ∨
        ∃ errors, review x.answer = .invalid errors ∧ reason = Planner.joined errors) := by
      dsimp only [Planner.attemptsAt] at hjudge
      cases hreview : review x.answer with
      | raised why =>
          simp only [hreview] at hjudge
          cases hjudge
      | unreadable reason' =>
          simp only [hreview] at hjudge
          cases hjudge
          exact ⟨h.unreadable _ _ hreview, .inl rfl⟩
      | invalid errors =>
          simp only [hreview] at hjudge
          cases hjudge
          exact ⟨Planner.joined_ne_empty (h.invalid _ _ hreview), .inr ⟨errors, rfl, rfl⟩⟩
      | fit result =>
          simp only [hreview] at hjudge
          cases hjudge
    refine ⟨reason, hreason.1, hreason.2, ?_⟩
    rw [hquestion]
    show attemptMessages prompt retryPrompt reason = _
    rw [attemptMessages, if_neg hreason.1]
  · refine Lib.Dialogue.hold_notes (fun _ _ => rfl : ∀ q w, Prod.snd (pl.ask q w).2 = Prod.snd w)
      (fun _ _ _ => rfl) ?_ _ _ _ _
    · intro a answer result hjudge
      dsimp only [Planner.attemptsAt] at hjudge
      show pl.rejection stage a (review answer) = []
      cases hreview : review answer with
      | raised why => rfl
      | unreadable reason => rfl
      | invalid errors =>
          simp only [hreview] at hjudge
          cases hjudge
      | fit result => rfl

/-- A result is what the last answer was reviewed as. -/
theorem Consulted.result {β : Type} {stage prompt : String} {review : ModelAnswer → Review β}
    {s : W × List PlanRejection}
    {out : Option (CallOutcome β) × List (Lib.Exchange (List Message) ModelAnswer) × W × List PlanRejection}
    (h : Consulted pl stage prompt review s out) {b : β} (hout : out.1 = some (.result b)) :
    ∃ front last, out.2.1 = front ++ [last] ∧ review last.answer = .fit b := by
  have hends := h.ends
  rw [hout] at hends
  generalize out.2.1 = xs at hends ⊢
  cases hends with
  | @taken front last result hrefused hjudge =>
      refine ⟨front, last, rfl, ?_⟩
      dsimp only [Planner.attemptsAt] at hjudge
      cases hreview : review last.answer with
      | raised why =>
          simp only [hreview] at hjudge
          cases hjudge
      | unreadable reason =>
          simp only [hreview] at hjudge
          cases hjudge
      | invalid errors =>
          simp only [hreview] at hjudge
          cases hjudge
      | fit result =>
          simp only [hreview] at hjudge
          cases hjudge
          rfl

theorem guarded_cases (pl : Planner W) (p : DagPlan) (completed available : List String) :
    validate pl.registry p completed available = [] ∧ pl.guarded p completed available = .fit p ∨
      ∃ errors, errors ≠ [] ∧ pl.guarded p completed available = .invalid errors := by
  rw [Planner.guarded]
  split
  · rename_i hvalid
    exact .inl ⟨hvalid, rfl⟩
  · rename_i hne
    exact .inr ⟨_, hne, rfl⟩

/-- Whatever is made of the plans that are read, there is a reason for every refusal. -/
theorem reasoned_reviewed (pl : Planner W) (executed : List String) {settle : DagPlan → Review DagPlan}
    (hsettle : ∀ p, (∃ q, settle p = .fit q) ∨ ∃ errors, errors ≠ [] ∧ settle p = .invalid errors) :
    Reasoned (pl.reviewed executed settle) := by
  constructor
  · intro answer reason h
    cases answer with
    | error why => cases h
    | ok response =>
        dsimp only [Planner.reviewed] at h
        split at h
        · cases h
        · rename_i reason' hparse
          cases h
          exact parsePlanResponse_reason hparse
        · rename_i p hparse
          obtain ⟨q, hfit⟩ | ⟨errors, -, hinvalid⟩ := hsettle p
          · rw [hfit] at h
            cases h
          · rw [hinvalid] at h
            cases h
  · intro answer errors h
    cases answer with
    | error why => cases h
    | ok response =>
        dsimp only [Planner.reviewed] at h
        split at h
        · cases h
        · cases h
        · rename_i p hparse
          obtain ⟨q, hfit⟩ | ⟨errors', hne, hinvalid⟩ := hsettle p
          · rw [hfit] at h
            cases h
          · rw [hinvalid] at h
            cases h
            exact hne

/-- An answer that fits is one that is read as a plan. -/
theorem fit_reviewed {executed : List String} {settle : DagPlan → Review DagPlan} {answer : ModelAnswer}
    {p : DagPlan} (h : pl.reviewed executed settle answer = .fit p) : ∃ response q, answer = .ok response ∧
      parsePlanResponse pl.decoding response executed = .plan q ∧ settle q = .fit p := by
  cases answer with
  | error why => cases h
  | ok response =>
      dsimp only [Planner.reviewed] at h
      split at h
      · cases h
      · cases h
      · rename_i q hparse
        exact ⟨response, q, rfl, hparse, h⟩

theorem reasoned_reviewPlan (pl : Planner W) (intent : String) : Reasoned (pl.reviewPlan intent) := by
  apply reasoned_reviewed
  intro p
  obtain ⟨-, hfit⟩ | hinvalid := guarded_cases pl { p with userIntent := intent } [] []
  · exact .inl ⟨_, hfit⟩
  · exact .inr hinvalid

theorem reasoned_reviewRevision (pl : Planner W) (current : DagPlan) (executed available : List String) :
    Reasoned (pl.reviewRevision current executed available) := by
  apply reasoned_reviewed
  intro p
  rw [Planner.settleRevision]
  generalize (if p.userIntent = "" then { p with userIntent := current.userIntent } else p) = revised
  by_cases hempty : revised.steps = []
  · rw [if_pos hempty]
    exact .inl ⟨_, rfl⟩
  · rw [if_neg hempty]
    obtain ⟨-, hfit⟩ | hinvalid := guarded_cases pl revised executed available
    · exact .inl ⟨_, hfit⟩
    · exact .inr hinvalid

theorem valid_of_guarded {p q : DagPlan} {completed available : List String}
    (h : pl.guarded p completed available = .fit q) : q = p ∧ validate pl.registry p completed available = [] := by
  obtain ⟨hvalid, hfit⟩ | ⟨errors, -, hinvalid⟩ := guarded_cases pl p completed available
  · rw [hfit] at h
    cases h
    exact ⟨rfl, hvalid⟩
  · rw [hinvalid] at h
    cases h

/-- The plan of an answer has no intent of the user yet. -/
theorem userIntent_of_parsed {d : Decoding} {response : String} {executed : List String} {q : DagPlan}
    (h : parsePlanResponse d response executed = .plan q) :
    q.userIntent = "" ∧ ∀ t ∈ q.stepTasks, KnownTask executed t := by
  obtain ⟨data, raw, steps, -, -, -, hplan⟩ := parsePlanResponse_eq_plan h
  obtain ⟨huser, -, htasks, -⟩ := fields_of_planOfObject hplan
  exact ⟨huser, htasks⟩

/-- **What a call of `plan` does.**  Whatever the model answers, it is asked at most `maxPlanRetries + 1`
times, each retry tells it why its last answer was refused, the answers that the guardrail refuses are
recorded in order under their numbers, and a plan that is returned passes the guardrail, carries the intent
of the user and is, for the rest, what the last answer is read as. -/
theorem planner_plans (pl : Planner W) (intent prompt : String) (s : W × List PlanRejection) :
    Consulted pl "plan" prompt (pl.reviewPlan intent) s (pl.plan intent prompt s) ∧
      ∀ p, (pl.plan intent prompt s).1 = some (.result p) →
        p.userIntent = intent ∧ validate pl.registry p [] [] = [] ∧
        ∃ front last response, (pl.plan intent prompt s).2.1 = front ++ [last] ∧ last.answer = .ok response ∧
          parsePlanResponse pl.decoding response [] = .plan { p with userIntent := "" } := by
  have hconsulted := consulted pl "plan" prompt (reasoned_reviewPlan pl intent) s
  refine ⟨hconsulted, fun p hp => ?_⟩
  obtain ⟨front, last, hxs, hreview⟩ := hconsulted.result hp
  obtain ⟨response, q, hanswer, hparse, hsettle⟩ := fit_reviewed hreview
  obtain ⟨rfl, hvalid⟩ := valid_of_guarded hsettle
  refine ⟨rfl, hvalid, front, last, response, hxs, hanswer, ?_⟩
  rw [hparse]
  have huser := (userIntent_of_parsed hparse).1
  cases q
  dsimp only at huser
  rw [huser]

/-- What `revise` returns is a plan that the answer is read as, with the intent of the current plan: it
passes the guardrail in the context of the run, or it has no steps. -/
theorem fit_reviewRevision {current p : DagPlan} {executed available : List String} {answer : ModelAnswer}
    (h : pl.reviewRevision current executed available answer = .fit p) :
    p.userIntent = current.userIntent ∧ (∀ t ∈ p.stepTasks, KnownTask executed t) ∧
      (p.steps = [] ∧ p.declaredOperations = current.declaredOperations ∨
        p.steps ≠ [] ∧ validate pl.registry p executed available = []) := by
  obtain ⟨response, q, -, hparse, hsettle⟩ := fit_reviewed h
  obtain ⟨huser, htasks⟩ := userIntent_of_parsed hparse
  rw [Planner.settleRevision] at hsettle
  rw [if_pos huser] at hsettle
  split_ifs at hsettle with hempty
  · cases hsettle
    exact ⟨rfl, htasks, .inl ⟨rfl, rfl⟩⟩
  · obtain ⟨rfl, hvalid⟩ := valid_of_guarded hsettle
    exact ⟨rfl, htasks, .inr ⟨hempty, hvalid⟩⟩

/-- **What a call of `propose_local_repair` does.**  The model is asked at most `maxPlanRetries + 1` times,
and again only after an answer that cannot be read, with the reason; an exception and the answer that no
repair is possible end the call.  A proposal is what the last answer is read as, and it names a tool. -/
theorem local_repair_proposed (pl : Planner W) (prompt : String) (s : W × List PlanRejection) :
    (pl.proposeLocalRepair prompt s).2.1.length ≤ pl.maxPlanRetries + 1 ∧
    (pl.proposeLocalRepair prompt s).2.2.2 = s.2 ∧
    (∀ x : Lib.Exchange (List Message) ModelAnswer, (pl.proposeLocalRepair prompt s).2.1[0]? = some x →
      x.question = [⟨"system", prompt⟩]) ∧
    (∀ (i : ℕ) (x y : Lib.Exchange (List Message) ModelAnswer),
      (pl.proposeLocalRepair prompt s).2.1[i]? = some x →
      (pl.proposeLocalRepair prompt s).2.1[i + 1]? = some y →
      ∃ response reason : String, x.answer = .ok response ∧ reason ≠ "" ∧
        parseLocalRepairProposal pl.decoding response = .rejected reason ∧
        y.question = [⟨"system", prompt⟩, ⟨"user", localRepairRetryPrompt reason⟩]) ∧
    ∀ p : LocalRepairProposal, (pl.proposeLocalRepair prompt s).1 = some p → p.toolName ≠ "" ∧
      ∃ (front : List (Lib.Exchange (List Message) ModelAnswer)) (last : Lib.Exchange (List Message) ModelAnswer)
        (response : String), (pl.proposeLocalRepair prompt s).2.1 = front ++ [last] ∧
        last.answer = .ok response ∧ parseLocalRepairProposal pl.decoding response = .proposal p := by
  have hfollows : (pl.repairAttempts prompt).Follows "" (pl.proposeLocalRepair prompt s).2.1 :=
    Lib.Dialogue.hold_follows _ _ _ _
  have hends : (pl.repairAttempts prompt).Ends (pl.maxPlanRetries + 1)
      ((pl.repairAttempts prompt).hold pl.ask 1 (pl.maxPlanRetries + 1) "" s).1
      (pl.proposeLocalRepair prompt s).2.1 := Lib.Dialogue.hold_ends _ _ _ _
  -- what an answer is judged as says how it was read
  have hread : ∀ answer, (∀ reason, (pl.repairAttempts prompt).judge answer = .refused reason →
        ∃ response, answer = .ok response ∧
          parseLocalRepairProposal pl.decoding response = .rejected reason) ∧
      ∀ p, (pl.repairAttempts prompt).judge answer = .taken (some p) →
        ∃ response, answer = .ok response ∧ parseLocalRepairProposal pl.decoding response = .proposal p := by
    intro answer
    cases answer with
    | error why => exact ⟨fun reason h => (by cases h), fun p h => by cases h⟩
    | ok response =>
        dsimp only [Planner.repairAttempts]
        cases hparse : parseLocalRepairProposal pl.decoding response with
        | proposal p =>
            refine ⟨fun reason h => (by cases h), fun p' h => ?_⟩
            cases h
            exact ⟨response, rfl, hparse⟩
        | noRepair => exact ⟨fun reason h => (by cases h), fun p h => by cases h⟩
        | rejected reason =>
            refine ⟨fun reason' h => ?_, fun p h => by cases h⟩
            cases h
            exact ⟨response, rfl, hparse⟩
  refine ⟨Lib.Dialogue.hold_length _ _ _ _, ?_, fun x hx => hfollows.head hx, ?_, ?_⟩
  · have hnotes := Lib.Dialogue.hold_notes (g := pl.repairAttempts prompt) (f := fun _ _ => ([] : List PlanRejection))
      (fun _ _ => rfl : ∀ q w, Prod.snd (pl.ask q w).2 = Prod.snd w)
      (fun _ _ _ => (List.append_nil _).symm) (fun _ _ _ _ => rfl) 1 (pl.maxPlanRetries + 1) "" s
    have hnil : ∀ (a : ℕ) (xs : List (Lib.Exchange (List Message) ModelAnswer)),
        Lib.Dialogue.notes (fun _ _ => ([] : List PlanRejection)) a xs = [] := by
      intro a xs
      induction xs generalizing a with
      | nil => rfl
      | cons x xs ih => exact ih (a + 1)
    rw [hnil, List.append_nil] at hnotes
    exact hnotes
  · intro i x y hx hy
    obtain ⟨reason, hjudge, hquestion⟩ := hfollows.next hx hy
    obtain ⟨response, hanswer, hparse⟩ := (hread x.answer).1 reason hjudge
    have hreason := parseLocalRepairProposal_reason hparse
    refine ⟨response, reason, hanswer, hreason, hparse, ?_⟩
    rw [hquestion]
    show attemptMessages prompt localRepairRetryPrompt reason = _
    rw [attemptMessages, if_neg hreason]
  · intro p hp
    have hresult : ((pl.repairAttempts prompt).hold pl.ask 1 (pl.maxPlanRetries + 1) "" s).1 = some (some p) := by
      have hget : ((pl.repairAttempts prompt).hold pl.ask 1 (pl.maxPlanRetries + 1) "" s).1.getD none = some p := hp
      cases hheld : ((pl.repairAttempts prompt).hold pl.ask 1 (pl.maxPlanRetries + 1) "" s).1 with
      | none =>
          rw [hheld] at hget
          cases hget
      | some result =>
          rw [hheld] at hget
          rw [← hget]
          rfl
    rw [hresult] at hends
    generalize (pl.proposeLocalRepair prompt s).2.1 = xs at hends ⊢
    cases hends with
    | @taken front last result hrefused hjudge =>
        obtain ⟨response, hanswer, hparse⟩ := (hread last.answer).2 p hjudge
        exact ⟨toolName_of_proposal hparse, front, last, response, rfl, hanswer, hparse⟩

end calls

end JAgent
