import JAgent.Models.Payloads

/-! # Payloads without a phase

A payload that carries its `phase` fits one member of the union of its aggregate.  One that omits it is
parsed all the same, and the member that accepts it decides the phase that `Event` and write validation
fill in.  `extra="forbid"` is there to leave one member.

It does so for most pairs: each member has a field it cannot do without (`mark`), and a member that does
not know this field rejects the payload.  Five pairs are not told apart in this way.  Their common
payloads are the rows of `overlaps`, each with the keys such a payload must have and the keys it may
have, and `ambiguous` is that a payload fits a row.  `phaseless_parse_unambiguous_iff`: at most one
member accepts a payload, and what is filled in does not depend on the choice the union makes, exactly
when it fits none. -/

namespace JAgent

/-! ### What a class accepts -/

/-- Each key of the object is one of the names. -/
def within (names : List String) (o : Obj) : Bool := o.all fun p => names.contains p.1

theorem within_iff {names : List String} {o : Obj} : within names o = true ↔ ∀ p ∈ o, p.1 ∈ names := by
  simp [within]

theorem within_mono {names names' : List String} {o : Obj} (h : names ⊆ names')
    (ho : within names o = true) : within names' o = true := by
  rw [within_iff] at ho ⊢
  intro p hp
  exact h (ho p hp)

/-- A key outside the names is absent. -/
theorem get?_eq_none_of_within {names : List String} {o : Obj} (ho : within names o = true) {k : String}
    (hk : k ∉ names) : Obj.get? o k = none := by
  rw [within_iff] at ho
  cases hget : Obj.get? o k with
  | none => rfl
  | some v => exact absurd (ho _ (Lib.mem_of_assoc hget)) hk

/-- What two classes both know, the phase apart when it is absent. -/
theorem within_of_within {names names' common : List String} {o : Obj} (h : within names o = true)
    (h' : within names' o = true) (hphase : Obj.get? o "phase" = none)
    (hcommon : ∀ k ∈ names, k ∈ names' → k = "phase" ∨ k ∈ common) : within common o = true := by
  rw [within_iff] at h h' ⊢
  intro p hp
  obtain hk | hk := hcommon p.1 (h p hp) (h' p hp)
  · have hnone := Lib.assoc_eq_none_iff.mp hphase
    exact absurd (List.mem_map.mpr ⟨p, hp, hk⟩) hnone
  · exact hk

namespace Codec

/-- What the input has under a name passes the annotation; `none` passes it with a default. -/
def fits (c : Codec) : Option Value → Bool
  | some v => (c.validate v).isSome
  | none => true

/-- The input has something under the name, and it passes the annotation. -/
def given (c : Codec) : Option Value → Bool
  | some v => (c.validate v).isSome
  | none => false

@[simp] theorem fits_none (c : Codec) : c.fits none = true := rfl

@[simp] theorem given_none (c : Codec) : c.given none = false := rfl

/-- What passes with a value passes with a default. -/
theorem fits_of_given {c : Codec} {v : Option Value} (h : c.given v = true) : c.fits v = true := by
  cases v with
  | none => rfl
  | some v => exact h

end Codec

namespace Schema

/-- The fields are read from the input. -/
def reads (s : Schema) (get : String → Option Value) : Bool := (s.read get).isSome

theorem reads_cons (name : String) (c : Codec) (default : Option c.Carrier) (s : Schema)
    (get : String → Option Value) :
    (cons name c default s).reads get = ((readField name c default get).isSome && s.reads get) := by
  show ((readField name c default get).bind _).isSome = _
  cases readField name c default get with
  | none => rfl
  | some x => exact Option.isSome_map

theorem reads_required (name : String) (c : Codec) (s : Schema) (get : String → Option Value) :
    (required name c s).reads get = (c.given (get name) && s.reads get) := by
  rw [required, reads_cons, readField]
  cases get name <;> rfl

theorem reads_field (name : String) (c : Codec) (default : c.Carrier) (s : Schema)
    (get : String → Option Value) :
    (field name c default s).reads get = (c.fits (get name) && s.reads get) := by
  rw [field, reads_cons, readField]
  cases get name <;> rfl

/-- The fields without a default and those with one. -/
def Fields (s : Schema) (needed allowed : List (String × Codec)) : Prop :=
  ∀ get : String → Option Value, s.reads get = true ↔
    (∀ p ∈ needed, p.2.given (get p.1) = true) ∧ ∀ p ∈ allowed, p.2.fits (get p.1) = true

theorem Fields.none : Fields nil [] [] := by
  intro get
  simp [reads, nil]

theorem Fields.required {s : Schema} {needed allowed : List (String × Codec)}
    (h : Fields s needed allowed) {name : String} {c : Codec} :
    Fields (Schema.required name c s) ((name, c) :: needed) allowed := by
  intro get
  rw [reads_required, Bool.and_eq_true, h get, List.forall_mem_cons, and_assoc]

theorem Fields.field {s : Schema} {needed allowed : List (String × Codec)}
    (h : Fields s needed allowed) {name : String} {c : Codec} {default : c.Carrier} :
    Fields (Schema.field name c default s) needed ((name, c) :: allowed) := by
  intro get
  rw [reads_field, Bool.and_eq_true, h get, List.forall_mem_cons]
  exact and_left_comm

/-- The fields are not read from an input without this name. -/
def Needs (r : String) (s : Schema) : Prop :=
  ∀ get : String → Option Value, get r = none → s.reads get = false

theorem needs_required (r : String) (c : Codec) (s : Schema) : Needs r (required r c s) := by
  intro get hr
  rw [reads_required, hr]
  rfl

theorem needs_cons {r : String} {s : Schema} (h : Needs r s) (name : String) (c : Codec)
    (default : Option c.Carrier) : Needs r (cons name c default s) := by
  intro get hr
  rw [reads_cons, h get hr, Bool.and_false]

end Schema

namespace PayloadClass
variable [Py] [Sha256] [Lax]

/-- A class accepts an object with keys of its own only, each with a value that passes. -/
theorem accepts_obj (c : PayloadClass) (o : Obj) :
    c.accepts (.obj o) = (within c.schema.names o && c.schema.reads (Obj.get? o)) := by
  have hany : o.any (fun p => !c.schema.names.contains p.1) = !within c.schema.names o := by
    rw [within, List.all_eq_not_any_not, Bool.not_not]
  show (if true && o.any (fun p => !c.schema.names.contains p.1) then none
    else c.schema.read (Obj.get? o)).isSome = _
  rw [hany, Bool.true_and]
  cases within c.schema.names o <;> rfl

theorem accepts_obj_iff {c : PayloadClass} {o : Obj} :
    c.accepts (.obj o) = true ↔
      within c.schema.names o = true ∧ c.schema.reads (Obj.get? o) = true := by
  rw [accepts_obj, Bool.and_eq_true]

/-- A field the class cannot do without. -/
def mark : PayloadClass → Option String
  | .runStarted => some "intent"
  | .runPaused => some "reason"
  | .runResumed => some "resume_from_seq"
  | .runCompleted => some "result_summary"
  | .runFailed | .planFailed => some "final_error"
  | .planCreated => some "steps_summary"
  | .planRevised => some "revision_reason"
  | .planCompleted => some "completed_steps"
  | .dagStepStarted => some "tool_name"
  | .dagStepFailed | .toolFailed => some "error"
  | .toolCalled | .confirmationRequested => some "input"
  | .toolCompleted => some "output"
  | .toolTimeout => some "timeout_ms"
  | .guardrailTriggered => some "guardrail_id"
  | .outputBlobStored => some "ref"
  | .confirmationReceived => some "confirmed"
  | .contextCheckpointed => some "checkpoint_seq"
  | .episodeArchived => some "episode"
  | .contextPruned => some "pruned_event_refs"
  | .conversationStarted => some "title"
  | .conversationMessage => some "content"
  | .workspaceCreated => some "scope"
  | .workspaceUpdated => some "changed_fields"
  | .lateEventRejected => some "seq"
  | .phaseTimedOut => some "budget_ms"
  | .taskCleanupTimeout => some "grace_ms"
  | .planRejected => some "stage"
  | .runOrphaned | .dagStepSkipped | .dagStepCompleted | .stepLocalRepairStarted
  | .stepLocalRepairCompleted | .workspaceDeleted | .agentThought | .feedbackInjected
  | .deliveryContractsResolved => none

theorem needs_mark {c : PayloadClass} {r : String} (h : c.mark = some r) : Schema.Needs r c.schema := by
  cases c <;> simp only [mark, Option.some.injEq, reduceCtorEq] at h
  all_goals
    subst h
    repeat' first
      | exact Schema.needs_required _ _ _
      | apply Schema.needs_cons

/-- A class that does not know the mark of another accepts nothing that the other does. -/
theorem not_accepts_of_mark {c c' : PayloadClass} {r : String} (hr : c.mark = some r)
    (hc' : r ∉ c'.schema.names) {o : Obj} (h : c.accepts (.obj o) = true) : c'.accepts (.obj o) = false := by
  by_contra hacc
  rw [Bool.not_eq_false, accepts_obj_iff] at hacc
  have hread := needs_mark hr (Obj.get? o) (get?_eq_none_of_within hacc.1 hc')
  rw [accepts_obj_iff, hread] at h
  exact absurd h.2 Bool.false_ne_true

end PayloadClass

/-! ### What the members of a pair read -/

section

open Codec

/-- A string passes `str | None`. -/
theorem optStr_fits_of_given {v : Option Value} (h : str.given v = true) : optStr.fits v = true := by
  cases v with
  | none => rfl
  | some v =>
      cases v with
      | str s => rfl
      | null => rfl
      | bool | int | float | arr | obj => exact absurd h Bool.false_ne_true

theorem fields_runPaused : Schema.Fields .runPaused [("reason", str)] [("phase", literal ["paused"])] :=
  .field (.required .none)

theorem fields_dagStepStarted :
    Schema.Fields .dagStepStarted [("plan_id", str), ("step_id", str), ("tool_name", str)]
      [("phase", literal ["started"]), ("depends_on", list str)] :=
  .field (.required (.required (.required (.field .none))))

theorem fields_dagStepSkipped :
    Schema.Fields .dagStepSkipped [("plan_id", str), ("step_id", str)]
      [("phase", literal ["skipped"]), ("reason", str), ("tool_name", str)] :=
  .field (.required (.required (.field (.field .none))))

theorem fields_dagStepCompleted :
    Schema.Fields .dagStepCompleted [("plan_id", str), ("step_id", str)]
      [("phase", literal ["completed"]), ("output_summary", str), ("status", str), ("error", optStr),
        ("tool_call_id", optStr)] :=
  .field (.required (.required (.field (.field (.field (.field .none))))))

variable [Lax]

theorem fields_runOrphaned :
    Schema.Fields .runOrphaned [] [("phase", literal ["orphaned"]), ("reason", str), ("detected_at", float)] :=
  .field (.field (.field .none))

theorem fields_dagStepFailed :
    Schema.Fields .dagStepFailed [("plan_id", str), ("step_id", str), ("error", str)]
      [("phase", literal ["failed"]), ("retryable", bool), ("tool_name", str), ("tool_call_id", optStr)] :=
  .field (.required (.required (.required (.field (.field (.field .none))))))

theorem fields_stepLocalRepairStarted :
    Schema.Fields .stepLocalRepairStarted [("step_id", str)]
      [("phase", literal ["started"]), ("plan_id", str), ("repair_round", int), ("budget_remaining", int),
        ("step_tool", str), ("error", optStr), ("tool_whitelist", list str)] :=
  .field (.required (.field (.field (.field (.field (.field (.field .none)))))))

theorem fields_stepLocalRepairCompleted :
    Schema.Fields .stepLocalRepairCompleted [("step_id", str)]
      [("phase", literal ["completed"]), ("plan_id", str), ("repair_round", int),
        ("outcome", literal ["accepted", "rejected", "exhausted"]), ("tool_name", str),
        ("proposed_tool", str), ("error", optStr), ("reason", str)] :=
  .field (.required (.field (.field (.field (.field (.field (.field (.field .none))))))))

end

/-! ### The pairs that overlap -/

/-- Two members of a union with payloads in common: the keys these must have and those they may have. -/
structure Overlap where
  first : PayloadClass
  second : PayloadClass
  needed : List (String × Codec)
  allowed : List (String × Codec)

namespace Overlap

/-- The payload is one of them. -/
def fits (w : Overlap) (o : Obj) : Bool :=
  within (w.needed.map Prod.fst ++ w.allowed.map Prod.fst) o &&
    (w.needed.all (fun p => p.2.given (Obj.get? o p.1)) &&
      w.allowed.all (fun p => p.2.fits (Obj.get? o p.1)))

/-- The keys of such a payload. -/
def names (w : Overlap) : List String := w.needed.map Prod.fst ++ w.allowed.map Prod.fst

variable [Py] [Sha256] [Lax]

/-- The row says what the two classes have in common. -/
structure Exact (w : Overlap) : Prop where
  first_names : w.names ⊆ w.first.schema.names
  second_names : w.names ⊆ w.second.schema.names
  common : ∀ k ∈ w.first.schema.names, k ∈ w.second.schema.names → k = "phase" ∨ k ∈ w.names
  read_iff : ∀ get : String → Option Value, (∀ k, k ∉ w.names → get k = none) →
    (w.first.schema.reads get = true ∧ w.second.schema.reads get = true ↔
      (∀ p ∈ w.needed, p.2.given (get p.1) = true) ∧ ∀ p ∈ w.allowed, p.2.fits (get p.1) = true)

/-- Both classes accept the payloads of the row, and no others. -/
theorem Exact.accepts_iff {w : Overlap} (hw : w.Exact) {o : Obj} (hphase : Obj.get? o "phase" = none) :
    w.first.accepts (.obj o) = true ∧ w.second.accepts (.obj o) = true ↔ w.fits o = true := by
  have hfits : w.fits o = true ↔ within w.names o = true ∧
      (∀ p ∈ w.needed, p.2.given (Obj.get? o p.1) = true) ∧
        ∀ p ∈ w.allowed, p.2.fits (Obj.get? o p.1) = true := by
    rw [fits, Bool.and_eq_true, Bool.and_eq_true, List.all_eq_true, List.all_eq_true]
    rfl
  rw [hfits, PayloadClass.accepts_obj_iff, PayloadClass.accepts_obj_iff]
  constructor
  · rintro ⟨⟨hfirst, hread⟩, hsecond, hread'⟩
    have hwithin := within_of_within hfirst hsecond hphase hw.common
    have habsent : ∀ k, k ∉ w.names → Obj.get? o k = none := fun k => get?_eq_none_of_within hwithin
    exact ⟨hwithin, (hw.read_iff _ habsent).mp ⟨hread, hread'⟩⟩
  · rintro ⟨hwithin, hvalues⟩
    have habsent : ∀ k, k ∉ w.names → Obj.get? o k = none := fun k => get?_eq_none_of_within hwithin
    obtain ⟨hread, hread'⟩ := (hw.read_iff _ habsent).mpr hvalues
    exact ⟨⟨within_mono hw.first_names hwithin, hread⟩, within_mono hw.second_names hwithin, hread'⟩

end Overlap

section
variable [Lax]

open Codec

/-- The pairs that overlap in the union of an aggregate. -/
def overlaps : EventType → List Overlap
  | .run => [⟨.runPaused, .runOrphaned, [("reason", str)], []⟩]
  | .step => [
      ⟨.dagStepStarted, .dagStepSkipped, [("plan_id", str), ("step_id", str), ("tool_name", str)], []⟩,
      ⟨.dagStepSkipped, .dagStepCompleted, [("plan_id", str), ("step_id", str)], []⟩,
      ⟨.dagStepFailed, .dagStepCompleted, [("plan_id", str), ("step_id", str), ("error", str)],
        [("tool_call_id", optStr)]⟩]
  | .stepRepair => [
      ⟨.stepLocalRepairStarted, .stepLocalRepairCompleted, [("step_id", str)],
        [("plan_id", str), ("repair_round", int), ("error", optStr)]⟩]
  | _ => []

/-- The payload fits two members of the union of the aggregate. -/
def ambiguous (t : EventType) (o : Obj) : Bool := (overlaps t).any (·.fits o)

variable [Py] [Sha256]

theorem exact_run : Overlap.Exact ⟨.runPaused, .runOrphaned, [("reason", str)], []⟩ := by
  refine ⟨of_decide_eq_true rfl, of_decide_eq_true rfl, of_decide_eq_true rfl, fun get habsent => ?_⟩
  have hphase := habsent "phase" (of_decide_eq_true rfl)
  have hat := habsent "detected_at" (of_decide_eq_true rfl)
  show Schema.runPaused.reads get = true ∧ Schema.runOrphaned.reads get = true ↔ _
  rw [fields_runPaused get, fields_runOrphaned get]
  simp only [List.forall_mem_cons, List.not_mem_nil, false_implies, implies_true,
    hphase, hat, fits_none, and_true, true_and]
  exact and_iff_left_of_imp fits_of_given

theorem exact_startedSkipped :
    Overlap.Exact ⟨.dagStepStarted, .dagStepSkipped,
      [("plan_id", str), ("step_id", str), ("tool_name", str)], []⟩ := by
  refine ⟨of_decide_eq_true rfl, of_decide_eq_true rfl, of_decide_eq_true rfl, fun get habsent => ?_⟩
  have hphase := habsent "phase" (of_decide_eq_true rfl)
  have hdeps := habsent "depends_on" (of_decide_eq_true rfl)
  have hreason := habsent "reason" (of_decide_eq_true rfl)
  show Schema.dagStepStarted.reads get = true ∧ Schema.dagStepSkipped.reads get = true ↔ _
  rw [fields_dagStepStarted get, fields_dagStepSkipped get]
  simp only [List.forall_mem_cons, List.not_mem_nil, false_implies, implies_true,
    hphase, hdeps, hreason, fits_none, and_true,
    true_and]
  constructor
  · rintro ⟨h, -⟩
    exact h
  · rintro ⟨hplan, hstep, htool⟩
    exact ⟨⟨hplan, hstep, htool⟩, ⟨hplan, hstep⟩, fits_of_given htool⟩

theorem exact_skippedCompleted :
    Overlap.Exact ⟨.dagStepSkipped, .dagStepCompleted, [("plan_id", str), ("step_id", str)], []⟩ := by
  refine ⟨of_decide_eq_true rfl, of_decide_eq_true rfl, of_decide_eq_true rfl, fun get habsent => ?_⟩
  have hphase := habsent "phase" (of_decide_eq_true rfl)
  have hreason := habsent "reason" (of_decide_eq_true rfl)
  have htool := habsent "tool_name" (of_decide_eq_true rfl)
  have hsummary := habsent "output_summary" (of_decide_eq_true rfl)
  have hstatus := habsent "status" (of_decide_eq_true rfl)
  have herror := habsent "error" (of_decide_eq_true rfl)
  have hcall := habsent "tool_call_id" (of_decide_eq_true rfl)
  show Schema.dagStepSkipped.reads get = true ∧ Schema.dagStepCompleted.reads get = true ↔ _
  rw [fields_dagStepSkipped get, fields_dagStepCompleted get]
  simp only [List.forall_mem_cons, List.not_mem_nil, false_implies, implies_true,
    hphase, hreason, htool, hsummary, hstatus, herror,
    hcall, fits_none, and_true, and_self]

theorem exact_failedCompleted :
    Overlap.Exact ⟨.dagStepFailed, .dagStepCompleted,
      [("plan_id", str), ("step_id", str), ("error", str)], [("tool_call_id", optStr)]⟩ := by
  refine ⟨of_decide_eq_true rfl, of_decide_eq_true rfl, of_decide_eq_true rfl, fun get habsent => ?_⟩
  have hphase := habsent "phase" (of_decide_eq_true rfl)
  have hretryable := habsent "retryable" (of_decide_eq_true rfl)
  have htool := habsent "tool_name" (of_decide_eq_true rfl)
  have hsummary := habsent "output_summary" (of_decide_eq_true rfl)
  have hstatus := habsent "status" (of_decide_eq_true rfl)
  show Schema.dagStepFailed.reads get = true ∧ Schema.dagStepCompleted.reads get = true ↔ _
  rw [fields_dagStepFailed get, fields_dagStepCompleted get]
  simp only [List.forall_mem_cons, List.not_mem_nil, false_implies, implies_true,
    hphase, hretryable, htool, hsummary, hstatus,
    fits_none, and_true, true_and]
  constructor
  · rintro ⟨h, -⟩
    exact h
  · rintro ⟨⟨hplan, hstep, herror⟩, hcall⟩
    exact ⟨⟨⟨hplan, hstep, herror⟩, hcall⟩, ⟨hplan, hstep⟩, optStr_fits_of_given herror, hcall⟩

theorem exact_repair :
    Overlap.Exact ⟨.stepLocalRepairStarted, .stepLocalRepairCompleted, [("step_id", str)],
      [("plan_id", str), ("repair_round", int), ("error", optStr)]⟩ := by
  refine ⟨of_decide_eq_true rfl, of_decide_eq_true rfl, of_decide_eq_true rfl, fun get habsent => ?_⟩
  have hphase := habsent "phase" (of_decide_eq_true rfl)
  have hbudget := habsent "budget_remaining" (of_decide_eq_true rfl)
  have hstepTool := habsent "step_tool" (of_decide_eq_true rfl)
  have hwhitelist := habsent "tool_whitelist" (of_decide_eq_true rfl)
  have houtcome := habsent "outcome" (of_decide_eq_true rfl)
  have htool := habsent "tool_name" (of_decide_eq_true rfl)
  have hproposed := habsent "proposed_tool" (of_decide_eq_true rfl)
  have hreason := habsent "reason" (of_decide_eq_true rfl)
  show Schema.stepLocalRepairStarted.reads get = true ∧
    Schema.stepLocalRepairCompleted.reads get = true ↔ _
  rw [fields_stepLocalRepairStarted get, fields_stepLocalRepairCompleted get]
  simp only [List.forall_mem_cons, List.not_mem_nil, false_implies, implies_true,
    hphase, hbudget, hstepTool, hwhitelist, houtcome,
    htool, hproposed, hreason, fits_none, and_true, true_and, and_self]

/-- Every row says what its two classes have in common. -/
theorem exact_of_mem_overlaps {t : EventType} {w : Overlap} (hw : w ∈ overlaps t) : w.Exact := by
  cases t <;> simp only [overlaps, List.mem_cons, List.not_mem_nil, or_false] at hw
  case run =>
    subst hw
    exact exact_run
  case step =>
    obtain rfl | rfl | rfl := hw
    · exact exact_startedSkipped
    · exact exact_skippedCompleted
    · exact exact_failedCompleted
  case stepRepair =>
    subst hw
    exact exact_repair

omit [Py] [Sha256] in
/-- The two classes of a row are two members of the union. -/
theorem mem_of_mem_overlaps {t : EventType} {w : Overlap} (hw : w ∈ overlaps t) :
    w.first ∈ payloadModelMap t ∧ w.second ∈ payloadModelMap t ∧ w.first ≠ w.second := by
  cases t <;> simp only [overlaps, List.mem_cons, List.not_mem_nil, or_false] at hw
  case run | stepRepair =>
    subst hw
    exact of_decide_eq_true rfl
  case step => obtain rfl | rfl | rfl := hw <;> exact of_decide_eq_true rfl

/-- The second class does not know the mark of the first. -/
def apart (c c' : PayloadClass) : Bool :=
  match c.mark with
  | some r => !c'.schema.names.contains r
  | none => false

theorem not_accepts_of_apart {c c' : PayloadClass} (hapart : apart c c' = true) {o : Obj}
    (h : c.accepts (.obj o) = true) : c'.accepts (.obj o) = false := by
  rw [apart] at hapart
  split at hapart
  · rename_i r hr
    apply PayloadClass.not_accepts_of_mark hr _ h
    simpa using hapart
  · cases hapart

/-- **The rows are all there are**: a mark tells every other pair apart. -/
theorem apart_or_overlap (t : EventType) : ∀ c ∈ payloadModelMap t, ∀ c' ∈ payloadModelMap t,
    c = c' ∨ apart c c' = true ∨ apart c' c = true ∨
      (∃ w ∈ overlaps t, w.first = c ∧ w.second = c') ∨ ∃ w ∈ overlaps t, w.first = c' ∧ w.second = c := by
  cases t <;> exact of_decide_eq_true rfl

/-- **Two members of a union accept a payload without a phase exactly when it is ambiguous.** -/
theorem two_accept_iff {t : EventType} {o : Obj} (hphase : Obj.get? o "phase" = none) :
    (∃ c ∈ payloadModelMap t, ∃ c' ∈ payloadModelMap t,
      c ≠ c' ∧ c.accepts (.obj o) = true ∧ c'.accepts (.obj o) = true) ↔ ambiguous t o = true := by
  rw [ambiguous, List.any_eq_true]
  constructor
  · rintro ⟨c, hc, c', hc', hne, hacc, hacc'⟩
    obtain heq | hapart | hapart | ⟨w, hw, rfl, rfl⟩ | ⟨w, hw, rfl, rfl⟩ :=
      apart_or_overlap t c hc c' hc'
    · exact absurd heq hne
    · rw [not_accepts_of_apart hapart hacc] at hacc'
      cases hacc'
    · rw [not_accepts_of_apart hapart hacc'] at hacc
      cases hacc
    · exact ⟨w, hw, ((exact_of_mem_overlaps hw).accepts_iff hphase).mp ⟨hacc, hacc'⟩⟩
    · exact ⟨w, hw, ((exact_of_mem_overlaps hw).accepts_iff hphase).mp ⟨hacc', hacc⟩⟩
  · rintro ⟨w, hw, hfits⟩
    obtain ⟨hfirst, hsecond, hne⟩ := mem_of_mem_overlaps hw
    have hacc := ((exact_of_mem_overlaps hw).accepts_iff hphase).mpr hfits
    exact ⟨w.first, hfirst, w.second, hsecond, hne, hacc.1, hacc.2⟩

/-! ### What is filled in -/

/-- The `phase` write validation stores. -/
def writtenPhase (u : SmartUnion PayloadClass) (t : EventType) (o : Obj) : Option Value :=
  ((parseEventPayload t (.obj o)).bind fun p => p.modelDump.asObj?).bind (Obj.get? · "phase")

/-- The `phase` of the `Event`. -/
def backfilledPhase (u : SmartUnion PayloadClass) (t : EventType) (o : Obj) : Option Value :=
  Obj.get? (PayloadText.normalizePayloadPhase t o) "phase"

/-- A payload without a phase gets the same one on both ways. -/
theorem backfilledPhase_eq (u : SmartUnion PayloadClass) {t : EventType} {o : Obj}
    (hphase : Obj.get? o "phase" = none) : backfilledPhase u t o = writtenPhase u t o := by
  rw [backfilledPhase, PayloadText.normalizePayloadPhase, hphase, if_neg (by simp), writtenPhase]
  cases (parseEventPayload t (.obj o)).bind fun p => p.modelDump.asObj? with
  | none => exact hphase
  | some d => rfl

/-- A union that takes one member wherever it can. -/
@[reducible] def preferring (c : PayloadClass) : SmartUnion PayloadClass where
  choose _ l := if c ∈ l then some c else l.head?
  choose_nil _ := rfl
  choose_singleton _ k := by
    by_cases h : c = k
    · subst h
      simp
    · simp [h]

/-- What is filled in is the phase of the member that is taken. -/
theorem writtenPhase_preferring {t : EventType} {c : PayloadClass} (hc : c ∈ payloadModelMap t) {o : Obj}
    (hacc : c.accepts (.obj o) = true) {ph : String} (hph : c.phase = some ph) :
    writtenPhase (preferring c) t o = some (.str ph) := by
  obtain ⟨x, hx⟩ := Option.isSome_iff_exists.mp hacc
  obtain ⟨s, hs⟩ := PayloadClass.schema_of_phase hph
  have hchoose : (preferring c).choose (.obj o) ((payloadModelMap t).filter (·.accepts (.obj o))) = some c :=
    if_pos (List.mem_filter.mpr ⟨hc, hacc⟩)
  have hparse : @parseEventPayload _ _ _ (preferring c) t (.obj o) = some ⟨c, x⟩ := by
    unfold parseEventPayload
    rw [hchoose, Option.bind_some, hx]
    rfl
  rw [writtenPhase, hparse]
  exact Schema.get?_phase_dump hs x

/-- Where at most one member accepts, there is nothing to choose. -/
theorem parse_eq_of_unique {t : EventType} {v : Value}
    (h : ∀ c ∈ payloadModelMap t, ∀ c' ∈ payloadModelMap t,
      c.accepts v = true → c'.accepts v = true → c = c') (u u' : SmartUnion PayloadClass) :
    @parseEventPayload _ _ _ u t v = @parseEventPayload _ _ _ u' t v := by
  have hchoose : u.choose v ((payloadModelMap t).filter (·.accepts v)) =
      u'.choose v ((payloadModelMap t).filter (·.accepts v)) := by
    by_cases hany : ∃ c ∈ payloadModelMap t, c.accepts v = true
    · obtain ⟨c, hc, hacc⟩ := hany
      have hone : (payloadModelMap t).filter (·.accepts v) = [c] := by
        apply filter_eq_singleton (PayloadClass.payloadModelMap_nodup t) hc
        intro c' hc'
        constructor
        · intro hacc'
          exact h c' hc' c hc hacc' hacc
        · rintro rfl
          exact hacc
      rw [hone, u.choose_singleton, u'.choose_singleton]
    · have hnone : (payloadModelMap t).filter (·.accepts v) = [] := by
        rw [List.filter_eq_nil_iff]
        intro c hc hacc
        exact hany ⟨c, hc, hacc⟩
      rw [hnone, u.choose_nil, u'.choose_nil]
  unfold parseEventPayload
  rw [hchoose]

/-- **Payloads without a phase are parsed unambiguously exactly outside the overlaps**: at most one
member of the union of the aggregate accepts such a payload, and the phase that is filled in depends on
no choice of the union, exactly when the payload is in no overlap. -/
theorem phaseless_parse_unambiguous_iff (t : EventType) (o : Obj) (hphase : Obj.get? o "phase" = none) :
    ((∀ c ∈ payloadModelMap t, ∀ c' ∈ payloadModelMap t,
        c.accepts (.obj o) = true → c'.accepts (.obj o) = true → c = c') ↔ ambiguous t o = false) ∧
      ((∀ u u' : SmartUnion PayloadClass, writtenPhase u t o = writtenPhase u' t o ∧
        backfilledPhase u t o = backfilledPhase u' t o) ↔ ambiguous t o = false) := by
  have hunique : (∀ c ∈ payloadModelMap t, ∀ c' ∈ payloadModelMap t,
      c.accepts (.obj o) = true → c'.accepts (.obj o) = true → c = c') ↔ ambiguous t o = false := by
    rw [← Bool.not_eq_true, ← two_accept_iff hphase]
    constructor
    · rintro h ⟨c, hc, c', hc', hne, hacc, hacc'⟩
      exact hne (h c hc c' hc' hacc hacc')
    · intro h c hc c' hc' hacc hacc'
      by_contra hne
      exact h ⟨c, hc, c', hc', hne, hacc, hacc'⟩
  refine ⟨hunique, fun hsame => ?_, fun hnot u u' => ?_⟩
  · -- two members that accept have two phases, and the union may take either
    apply hunique.mp
    intro c hc c' hc' hacc hacc'
    by_contra hne
    obtain ⟨ph, hph⟩ := PayloadClass.phase_isSome hc hc' hne
    obtain ⟨ph', hph'⟩ := PayloadClass.phase_isSome hc' hc (Ne.symm hne)
    have hwritten := (hsame (preferring c) (preferring c')).1
    rw [writtenPhase_preferring hc hacc hph, writtenPhase_preferring hc' hacc' hph', Option.some.injEq,
      Value.str.injEq] at hwritten
    exact hne (PayloadClass.phase_injective hc hc' (by rw [hph, hph', hwritten]))
  · have hwritten : writtenPhase u t o = writtenPhase u' t o := by
      rw [writtenPhase, writtenPhase, parse_eq_of_unique (hunique.mpr hnot) u u']
    rw [backfilledPhase_eq u hphase, backfilledPhase_eq u' hphase]
    exact ⟨hwritten, hwritten⟩

end

/-! ### A run that is paused or orphaned -/

section sample

attribute [local instance] halfPy noLax zeroSha

/-- A run is resumed; no other phase of a run has this field. -/
theorem resumed_parse_unambiguous :
    Obj.get? [("resume_from_seq", .int 7)] "phase" = none ∧
      ∀ u u' : SmartUnion PayloadClass,
        writtenPhase u .run [("resume_from_seq", .int 7)] =
          writtenPhase u' .run [("resume_from_seq", .int 7)] := by
  refine ⟨rfl, fun u u' => ?_⟩
  exact ((phaseless_parse_unambiguous_iff .run [("resume_from_seq", .int 7)] rfl).2.mpr rfl u u').1

/-- **A reason alone is a pause or an orphan**, and what the union takes decides. -/
theorem reason_parse_ambiguous :
    Obj.get? [("reason", .str "manual")] "phase" = none ∧
      PayloadClass.runPaused ∈ payloadModelMap .run ∧ PayloadClass.runOrphaned ∈ payloadModelMap .run ∧
      PayloadClass.runPaused.accepts (.obj [("reason", .str "manual")]) = true ∧
      PayloadClass.runOrphaned.accepts (.obj [("reason", .str "manual")]) = true ∧
      backfilledPhase (preferring .runPaused) .run [("reason", .str "manual")] = some (.str "paused") ∧
      backfilledPhase (preferring .runOrphaned) .run [("reason", .str "manual")] =
        some (.str "orphaned") := by
  decide +kernel

end sample

end JAgent
