import JAgent.Core.LenientJson
import JAgent.Core.Recovery

/-! # Plans in the answers of a model

`parsePlanResponse` turns the answer of the model into a plan: the object is recovered from the text, each
step is checked against the step schema, and the annotations of the plan (task states, declared operations)
are read as far as they make sense.  An answer is rejected with a reason that goes back to the model; where
a field has a type that the plan does not take, the construction of the plan raises.

The schema is the library's to check; what it accepts is written out here (`fitsStepSchema`), and the
error that it reports is a parameter.  `SpellsStep` and `SpellsPlan` say which objects are spellings of a
step and of a plan; `presented_plan_is_read` says that a presented spelling is read as its plan and that
nothing else is read as a step. -/

namespace JAgent

/-- What decoding takes from the libraries: `float(…)`, the message and the position of a decoding error,
and the path and the message of the error that `jsonschema` reports. -/
structure Decoding where
  parseFloat : String → Option Dyadic
  decodeError : String → String
  schemaError : Obj → List String × String

/-! ### The schema of a step -/

/-- The types that the fields of a step can have. -/
inductive FieldType where
  | string | object | strings | boolean
deriving DecidableEq

def FieldType.accepts : FieldType → Value → Bool
  | .string, .str _ => true
  | .object, .obj _ => true
  | .strings, .arr xs => xs.all fun x => x.asStr?.isSome
  | .boolean, .bool _ => true
  | _, _ => false

/-- The properties of `_STEP_SCHEMA_SIMPLE`; no others are allowed. -/
def stepProperties : List (String × FieldType) :=
  [("id", .string), ("tool", .string), ("input", .object), ("depends_on", .strings),
    ("description", .string), ("probe", .boolean)]

/-- The object is valid under `_STEP_SCHEMA_SIMPLE`. -/
def fitsStepSchema (step : Obj) : Bool :=
  ["id", "tool", "input"].all (fun key => (Obj.get? step key).isSome) &&
    step.all fun field => match Lib.assoc field.1 stepProperties with
      | some type => type.accepts field.2
      | none => false

section parsing
variable [Py] (d : Decoding)

/-- `validate_step`: the description of an error, if there is one. -/
def validateStep (step : Obj) (stepIndex : ℕ) : Option String :=
  if fitsStepSchema step then none
  else
    let (path, message) := d.schemaError step
    let name := match Obj.get? step "id" with
      | some v => pyStr v
      | none => "#" ++ toString stepIndex
    let badField := if path = [] then "structure" else join "." path
    some ("Step '" ++ name ++ "' has an error: field '" ++ badField ++ "': " ++ message ++
      ". Remember: ALL tool parameters must be inside 'input'.")

/-! ### Reading a plan -/

/-- `parameters` is another name of `input`, which wins where both are there. -/
def renameParameters (step : Obj) : Obj :=
  let rest := step.filter fun field => field.1 ≠ "parameters"
  match Obj.get? step "input", Obj.get? step "parameters" with
  | none, some v => rest ++ [("input", v)]
  | _, _ => rest

/-- A text of an object, empty where it is left out. -/
def textField (o : Obj) (key : String) : String := ((Obj.get? o key).bind Value.asStr?).getD ""

/-- A list of texts. -/
def textsField (o : Obj) (key : String) : List String :=
  match Obj.get? o key with
  | some (.arr xs) => xs.filterMap Value.asStr?
  | _ => []

/-- A boolean. -/
def boolField (o : Obj) (key : String) : Bool := ((Obj.get? o key).map Value.truthy).getD false

/-- A step of the answer. -/
def readStep (i : ℕ) : Value → Except String DagStep
  | .obj raw =>
      let step := renameParameters raw
      match validateStep d step i with
      | some err => .error err
      | none => .ok {
          id := textField step "id"
          tool := textField step "tool"
          input := ((Obj.get? step "input").bind Value.asObj?).getD []
          dependsOn := textsField step "depends_on"
          description := textField step "description"
          probe := boolField step "probe" }
  | _ => .error ("Step #" ++ toString i ++ " is not a JSON object")

/-- The steps of the answer; the first one that does not read ends it. -/
def readSteps : ℕ → List Value → Except String (List DagStep)
  | _, [] => .ok []
  | i, v :: vs => match readStep d i v with
    | .error err => .error err
    | .ok step => (readSteps (i + 1) vs).map (step :: ·)

/-- `step_tasks` of the answer: unknown steps and entries that are no texts are left out, and a state that
there is not is read as unknown. -/
def readTasks (executed : List String) : Option Value → List (String × String)
  | some (.obj raw) => raw.filterMap fun entry => match entry.2 with
      | .str state =>
          if executed ≠ [] ∧ entry.1 ∉ executed then none
          else some (entry.1, if (TaskState.ofValue? state).isSome then state else TaskState.unknown.value)
      | _ => none
  | _ => []

/-- `declared_operations` of the answer, without the items that declare nothing; `none` where the
construction of an operation raises. -/
def readOperations : List Value → Option (List RequiredOperation)
  | [] => some []
  | .obj item :: rest => match Obj.get? item "input" with
    | some (.obj input) => match (Obj.get? item "tool").getD (.str "") with
      | .str tool =>
          if tool = "" then readOperations rest
          else (readOperations rest).map (⟨tool, input⟩ :: ·)
      | tool => if tool.truthy then none else readOperations rest
    | _ => readOperations rest
  | _ :: rest => readOperations rest

/-- What a boolean field of a model takes. -/
def readBool : Value → Option Bool
  | .bool b => some b
  | .int n => if n = 0 then some false else if n = 1 then some true else none
  | .float x => if x = 0 then some false else if x = 1 then some true else none
  | .str s =>
      let s := String.ofList (s.toList.map Char.toLower)
      if s ∈ ["0", "off", "f", "false", "n", "no"] then some false
      else if s ∈ ["1", "on", "t", "true", "y", "yes"] then some true
      else none
  | _ => none

/-- What `parse_plan_response` gives: a plan, a reason for the model, or an exception of the construction. -/
inductive PlanResponse where
  | plan (plan : DagPlan)
  | rejected (reason : String)
  | raised
deriving DecidableEq

def readDeclared : Option Value → Option (List RequiredOperation)
  | some (.arr raw) => readOperations raw
  | _ => some []

def readIntent : Option Value → Option String
  | some v => v.asStr?
  | none => some ""

def readFailed : Option Value → Option Bool
  | some v => readBool v
  | none => some false

/-- The plan of an object; `none` where the construction raises. -/
def planOfObject (executed : List String) (data : Obj) (steps : List DagStep) : Option DagPlan :=
  (readDeclared (Obj.get? data "declared_operations")).bind fun declared =>
  (readIntent (Obj.get? data "intent")).bind fun intent =>
  (readFailed (Obj.get? data "failed")).map fun failed =>
    { intent := intent
      steps := steps
      failed := failed
      stepTasks := readTasks executed (Obj.get? data "step_tasks")
      declaredOperations := declared }

/-- `parse_plan_response`. -/
def parsePlanResponse (response : String) (executed : List String) : PlanResponse :=
  match parseLenientJson d.parseFloat response with
  | .error .noObject => .rejected "No JSON object found in response"
  | .error (.invalid span) => .rejected ("JSON parse error: " ++ d.decodeError span)
  | .ok (.obj data) => match Obj.get? data "steps" with
    | some (.arr raw) => match readSteps d 0 raw with
      | .error err => .rejected err
      | .ok steps => match planOfObject executed data steps with
        | some plan => .plan plan
        | none => .raised
    | _ => .rejected "Missing or invalid 'steps' array"
  | .ok _ => .rejected "Top-level value must be a JSON object with a 'steps' array"

/-- What `parse_local_repair_proposal` gives. -/
inductive RepairResponse where
  | proposal (proposal : LocalRepairProposal)
  | noRepair
  | rejected (reason : String)
deriving DecidableEq

/-- `str(v or "")`. -/
def textOr : Option Value → String
  | some v => if v.truthy then pyStr v else ""
  | none => ""

/-- `parse_local_repair_proposal`. -/
def parseLocalRepairProposal (response : String) : RepairResponse :=
  match parseLenientJson d.parseFloat response with
  | .error .noObject => .rejected "No JSON object found in local-repair response"
  | .error (.invalid _) => .rejected "Local-repair response is not valid JSON"
  | .ok (.obj data) =>
      let toolName := String.ofList (strip (textOr (Obj.get? data "tool_name")).toList)
      if toolName = "" then .noRepair
      else
        let rawInput := match Obj.get? data "input" with
          | none | some .null => Obj.get? data "parameters"
          | some v => some v
        match rawInput with
        | some (.obj input) => .proposal ⟨textOr (Obj.get? data "step_id"), toolName, input⟩
        | _ => .rejected ("Local-repair proposal for tool '" ++ toolName ++ "' must include an 'input' object")
  | .ok _ => .rejected "Local-repair response root must be a JSON object"

end parsing

/-! ### Spellings of a step -/

/-- The field has this value, or it is left out and the value is the default. -/
def Spells {α : Type} (o : Obj) (key : String) (write : α → Value) (default a : α) : Prop :=
  Obj.get? o key = some (write a) ∨ Obj.get? o key = none ∧ a = default

/-- The object spells the step. -/
structure SpellsStep (o : Obj) (s : DagStep) : Prop where
  known : ∀ field ∈ o, field.1 = "parameters" ∨ field.1 ∈ stepProperties.map Prod.fst
  id : Obj.get? o "id" = some (.str s.id)
  tool : Obj.get? o "tool" = some (.str s.tool)
  input : Obj.get? o "input" = some (.obj s.input) ∨
    Obj.get? o "input" = none ∧ Obj.get? o "parameters" = some (.obj s.input)
  dependsOn : Spells o "depends_on" (fun ids => .arr (ids.map .str)) [] s.dependsOn
  description : Spells o "description" .str "" s.description
  probe : Spells o "probe" .bool false s.probe
  maxParallel : s.maxParallel = 10

section steps
variable [Py] {d : Decoding} {o : Obj} {s : DagStep}

omit [Py] in
theorem get?_append (a b : Obj) (k : String) : Obj.get? (a ++ b) k = (Obj.get? a k).or (Obj.get? b k) :=
  Lib.assoc_append k a b

omit [Py] in
theorem get?_filter_ne (o : Obj) (k k' : String) :
    Obj.get? (o.filter fun field => field.1 ≠ k) k' = if k = k' then none else Obj.get? o k' :=
  Lib.Dict.assoc_filter_ne k k' o

omit [Py] in
/-- What the other names mean does not change. -/
theorem get?_renameParameters {k : String} (hinput : k ≠ "input") (hparameters : k ≠ "parameters") :
    Obj.get? (renameParameters o) k = Obj.get? o k := by
  have hfilter : Obj.get? (o.filter fun field => field.1 ≠ "parameters") k = Obj.get? o k := by
    rw [get?_filter_ne, if_neg (Ne.symm hparameters)]
  unfold renameParameters
  simp only
  split
  · rw [get?_append, hfilter]
    have hnone : ∀ v, Obj.get? [("input", v)] k = none := by
      intro v
      rw [Obj.get?, Lib.assoc, if_neg (Ne.symm hinput)]
      rfl
    rw [hnone, Option.or_none]
  · exact hfilter

omit [Py] in
theorem get?_renameParameters_input : Obj.get? (renameParameters o) "input" =
    (Obj.get? o "input").or (Obj.get? o "parameters") := by
  have hfilter : Obj.get? (o.filter fun field => field.1 ≠ "parameters") "input" = Obj.get? o "input" := by
    rw [get?_filter_ne, if_neg (by decide)]
  unfold renameParameters
  simp only
  cases hinput : Obj.get? o "input" with
  | some v =>
      show Obj.get? (o.filter fun field => field.1 ≠ "parameters") "input" = _
      rw [hfilter, hinput]
      rfl
  | none =>
      cases hparameters : Obj.get? o "parameters" with
      | none =>
          show Obj.get? (o.filter fun field => field.1 ≠ "parameters") "input" = _
          rw [hfilter, hinput]
          rfl
      | some v =>
          show Obj.get? (o.filter (fun field => field.1 ≠ "parameters") ++ [("input", v)]) "input" = _
          rw [get?_append, hfilter, hinput]
          rfl

omit [Py] in
theorem mem_renameParameters {field : String × Value} (h : field ∈ renameParameters o) :
    field.1 = "input" ∨ field ∈ o ∧ field.1 ≠ "parameters" := by
  unfold renameParameters at h
  simp only at h
  split at h
  · obtain h | h := List.mem_append.mp h
    · rw [List.mem_filter] at h
      exact .inr ⟨h.1, of_decide_eq_true h.2⟩
    · rw [List.mem_singleton] at h
      rw [h]
      exact .inl rfl
  · rw [List.mem_filter] at h
    exact .inr ⟨h.1, of_decide_eq_true h.2⟩

omit [Py] in
theorem nodup_renameParameters (h : (o.map Prod.fst).Nodup) : ((renameParameters o).map Prod.fst).Nodup := by
  have hfilter : ((o.filter fun field => field.1 ≠ "parameters").map Prod.fst).Nodup :=
    h.sublist ((List.filter_sublist).map Prod.fst)
  unfold renameParameters
  simp only
  split
  · rename_i v hinput hparameters
    rw [List.map_append, List.nodup_append]
    refine ⟨hfilter, List.nodup_singleton _, ?_⟩
    intro k hk k' hk' heq
    obtain rfl := List.mem_singleton.mp hk'
    rw [heq, List.mem_map] at hk
    obtain ⟨field, hfield, hkey⟩ := hk
    have hmem := (List.mem_filter.mp hfield).1
    exact absurd (List.mem_map.mpr ⟨field, hmem, hkey⟩) (Lib.assoc_eq_none_iff.mp hinput)
  · exact hfilter

omit [Py] in
/-- What the schema accepts has the fields that are required, and every field has its type. -/
theorem fitsStepSchema_iff : fitsStepSchema o = true ↔
    (∀ key ∈ ["id", "tool", "input"], (Obj.get? o key).isSome = true) ∧
      ∀ field ∈ o, ∃ type, Lib.assoc field.1 stepProperties = some type ∧ type.accepts field.2 = true := by
  rw [fitsStepSchema, Bool.and_eq_true, List.all_eq_true, List.all_eq_true]
  refine and_congr_right fun _ => forall₂_congr fun field _ => ?_
  cases Lib.assoc field.1 stepProperties with
  | none => simp
  | some type => simp

omit [Py] in
theorem accepts_string {v : Value} : FieldType.string.accepts v = true ↔ ∃ t, v = .str t := by
  cases v <;> simp [FieldType.accepts]

omit [Py] in
theorem accepts_object {v : Value} : FieldType.object.accepts v = true ↔ ∃ a, v = .obj a := by
  cases v <;> simp [FieldType.accepts]

omit [Py] in
theorem accepts_boolean {v : Value} : FieldType.boolean.accepts v = true ↔ ∃ b, v = .bool b := by
  cases v <;> simp [FieldType.accepts]

omit [Py] in
theorem accepts_strings {v : Value} : FieldType.strings.accepts v = true ↔
    ∃ ids : List String, v = .arr (ids.map .str) := by
  cases v with
  | arr xs =>
      show xs.all (fun x => x.asStr?.isSome) = true ↔ _
      constructor
      · intro h
        refine ⟨xs.filterMap Value.asStr?, ?_⟩
        rw [Value.arr.injEq]
        induction xs with
        | nil => rfl
        | cons x xs ih =>
            rw [List.all_cons, Bool.and_eq_true] at h
            cases x with
            | str t =>
                show Value.str t :: xs = Value.str t :: (xs.filterMap Value.asStr?).map .str
                rw [← ih h.2]
            | null | bool | int | float | arr | obj => cases h.1
      · rintro ⟨ids, h⟩
        rw [Value.arr.injEq] at h
        rw [h, List.all_map, List.all_eq_true]
        intro t _
        rfl
  | null | bool | int | float | str | obj => simp [FieldType.accepts]

omit [Py] in
theorem filterMap_asStr? (ids : List String) : (ids.map Value.str).filterMap Value.asStr? = ids := by
  induction ids with
  | nil => rfl
  | cons t ids ih =>
      show t :: (ids.map Value.str).filterMap Value.asStr? = _
      rw [ih]

omit [Py] in
/-- The object without the other name of `input` is valid, and it has the fields of the step. -/
theorem SpellsStep.fits (hkeys : (o.map Prod.fst).Nodup) (h : SpellsStep o s) :
    fitsStepSchema (renameParameters o) = true := by
  have hinput : Obj.get? (renameParameters o) "input" = some (.obj s.input) := by
    rw [get?_renameParameters_input]
    obtain h | ⟨hnone, h⟩ := h.input
    · rw [h]
      rfl
    · rw [hnone, h]
      rfl
  have hid := h.id
  have htool := h.tool
  rw [← get?_renameParameters (by decide) (by decide)] at hid htool
  rw [fitsStepSchema_iff]
  constructor
  · intro key hkey
    simp only [List.mem_cons, List.not_mem_nil, or_false] at hkey
    obtain rfl | rfl | rfl := hkey
    · rw [hid]
      rfl
    · rw [htool]
      rfl
    · rw [hinput]
      rfl
  · rintro ⟨key, v⟩ hfield
    have hget : Obj.get? (renameParameters o) key = some v :=
      Lib.assoc_of_mem_nodup (nodup_renameParameters hkeys) hfield
    have hknown : key ∈ stepProperties.map Prod.fst := by
      obtain hkey | ⟨hmem, hne⟩ := mem_renameParameters hfield
      · rw [show key = "input" from hkey]
        decide
      · exact (h.known _ hmem).resolve_left hne
    simp only [stepProperties, List.map_cons, List.map_nil, List.mem_cons, List.not_mem_nil,
      or_false] at hknown
    obtain rfl | rfl | rfl | rfl | rfl | rfl := hknown
    · rw [hid] at hget
      exact ⟨.string, rfl, accepts_string.mpr ⟨_, (Option.some.inj hget).symm⟩⟩
    · rw [htool] at hget
      exact ⟨.string, rfl, accepts_string.mpr ⟨_, (Option.some.inj hget).symm⟩⟩
    · rw [hinput] at hget
      exact ⟨.object, rfl, accepts_object.mpr ⟨_, (Option.some.inj hget).symm⟩⟩
    · rw [get?_renameParameters (by decide) (by decide)] at hget
      obtain hsome | ⟨hnone, -⟩ := h.dependsOn
      · rw [hsome] at hget
        exact ⟨.strings, rfl, accepts_strings.mpr ⟨_, (Option.some.inj hget).symm⟩⟩
      · rw [hnone] at hget
        cases hget
    · rw [get?_renameParameters (by decide) (by decide)] at hget
      obtain hsome | ⟨hnone, -⟩ := h.description
      · rw [hsome] at hget
        exact ⟨.string, rfl, accepts_string.mpr ⟨_, (Option.some.inj hget).symm⟩⟩
      · rw [hnone] at hget
        cases hget
    · rw [get?_renameParameters (by decide) (by decide)] at hget
      obtain hsome | ⟨hnone, -⟩ := h.probe
      · rw [hsome] at hget
        exact ⟨.boolean, rfl, accepts_boolean.mpr ⟨_, (Option.some.inj hget).symm⟩⟩
      · rw [hnone] at hget
        cases hget

theorem validateStep_eq_none {i : ℕ} : validateStep d o i = none ↔ fitsStepSchema o = true := by
  unfold validateStep
  split_ifs with h
  · exact iff_of_true rfl h
  · refine iff_of_false (fun hnone => ?_) h
    cases hnone

omit [Py] in
/-- The type of a field of a valid object. -/
theorem accepts_of_fits (hfits : fitsStepSchema o = true) {key : String} {v : Value} {type : FieldType}
    (hget : Obj.get? o key = some v) (htype : Lib.assoc key stepProperties = some type) :
    type.accepts v = true := by
  obtain ⟨type', htype', haccepts⟩ := (fitsStepSchema_iff.mp hfits).2 _ (Lib.mem_of_assoc hget)
  rw [htype, Option.some.injEq] at htype'
  rw [htype']
  exact haccepts

omit [Py] in
theorem textField_of_some {key t : String} (h : Obj.get? o key = some (.str t)) : textField o key = t := by
  rw [textField, h]
  rfl

omit [Py] in
/-- An optional text is read from its spellings, and nothing else has its type. -/
theorem spells_text_iff {key t : String}
    (htype : ∀ v, Obj.get? o key = some v → FieldType.string.accepts v = true) :
    Spells o key .str "" t ↔ textField o key = t := by
  unfold Spells textField
  cases hget : Obj.get? o key with
  | none => simp [eq_comm]
  | some v =>
      obtain ⟨t', rfl⟩ := accepts_string.mp (htype v hget)
      simp [Value.asStr?]

omit [Py] in
theorem spells_texts_iff {key : String} {ids : List String}
    (htype : ∀ v, Obj.get? o key = some v → FieldType.strings.accepts v = true) :
    Spells o key (fun ids => .arr (ids.map .str)) [] ids ↔ textsField o key = ids := by
  unfold Spells textsField
  cases hget : Obj.get? o key with
  | none => simp [eq_comm]
  | some v =>
      obtain ⟨ids', rfl⟩ := accepts_strings.mp (htype v hget)
      show (some (Value.arr (ids'.map .str)) = some (Value.arr (ids.map .str)) ∨ _) ↔
        (ids'.map Value.str).filterMap Value.asStr? = ids
      rw [filterMap_asStr?]
      constructor
      · rintro (h | ⟨h, -⟩)
        · rw [Option.some.injEq, Value.arr.injEq] at h
          rw [← filterMap_asStr? ids', h, filterMap_asStr?]
        · cases h
      · rintro rfl
        exact .inl rfl

omit [Py] in
theorem spells_bool_iff {key : String} {b : Bool}
    (htype : ∀ v, Obj.get? o key = some v → FieldType.boolean.accepts v = true) :
    Spells o key .bool false b ↔ boolField o key = b := by
  unfold Spells boolField
  cases hget : Obj.get? o key with
  | none => simp [eq_comm]
  | some v =>
      obtain ⟨b', rfl⟩ := accepts_boolean.mp (htype v hget)
      simp [Value.truthy]

/-- What a valid object is read as, it spells. -/
theorem spells_of_readStep {i : ℕ} (h : readStep d i (.obj o) = .ok s) : SpellsStep o s := by
  rw [readStep] at h
  cases hvalid : validateStep d (renameParameters o) i with
  | some err =>
      simp only [hvalid] at h
      cases h
  | none =>
      have hfits := validateStep_eq_none.mp hvalid
      have hrequired := (fitsStepSchema_iff.mp hfits).1
      simp only [hvalid, Except.ok.injEq] at h
      have hstring : ∀ key ∈ ["id", "tool", "input"], Lib.assoc key stepProperties = some .string →
          ∃ t, Obj.get? (renameParameters o) key = some (.str t) := by
        intro key hkey htype
        obtain ⟨v, hv⟩ := Option.isSome_iff_exists.mp (hrequired key hkey)
        obtain ⟨t, rfl⟩ := accepts_string.mp (accepts_of_fits hfits hv htype)
        exact ⟨t, hv⟩
      obtain ⟨id, hid⟩ := hstring "id" (by decide) rfl
      obtain ⟨tool, htool⟩ := hstring "tool" (by decide) rfl
      obtain ⟨input, hinput⟩ : ∃ a, Obj.get? (renameParameters o) "input" = some (.obj a) := by
        obtain ⟨v, hv⟩ := Option.isSome_iff_exists.mp (hrequired "input" (by decide))
        obtain ⟨a, rfl⟩ := accepts_object.mp (accepts_of_fits hfits hv rfl)
        exact ⟨a, hv⟩
      -- the optional fields have their types or are left out
      have hdepends := (spells_texts_iff fun v hv => accepts_of_fits hfits hv rfl).mpr
        (rfl : textsField (renameParameters o) "depends_on" = _)
      have hdescription := (spells_text_iff fun v hv => accepts_of_fits hfits hv rfl).mpr
        (rfl : textField (renameParameters o) "description" = _)
      have hprobe := (spells_bool_iff fun v hv => accepts_of_fits hfits hv rfl).mpr
        (rfl : boolField (renameParameters o) "probe" = _)
      unfold Spells at hdepends hdescription hprobe
      rw [get?_renameParameters (by decide) (by decide)] at hdepends hdescription hprobe
      rw [textField_of_some hid, textField_of_some htool, hinput] at h
      rw [get?_renameParameters (by decide) (by decide)] at hid htool
      rw [get?_renameParameters_input, Option.or_eq_some_iff] at hinput
      subst h
      refine ⟨?_, hid, htool, hinput, hdepends, hdescription, hprobe, rfl⟩
      intro field hfield
      by_cases hname : field.1 = "parameters"
      · exact .inl hname
      · right
        have hkept : field ∈ o.filter fun field => field.1 ≠ "parameters" :=
          List.mem_filter.mpr ⟨hfield, decide_eq_true hname⟩
        have hmem : field ∈ renameParameters o := by
          unfold renameParameters
          simp only
          split
          · exact List.mem_append_left _ hkept
          · exact hkept
        obtain ⟨type, htype, -⟩ := (fitsStepSchema_iff.mp hfits).2 _ hmem
        exact List.mem_map.mpr ⟨_, Lib.mem_of_assoc htype, rfl⟩

/-- **A step is read from its spellings, and from nothing else.** -/
theorem readStep_iff (hkeys : (o.map Prod.fst).Nodup) (i : ℕ) :
    readStep d i (.obj o) = .ok s ↔ SpellsStep o s := by
  refine ⟨spells_of_readStep, fun h => ?_⟩
  have hfits := h.fits hkeys
  have hinput : Obj.get? (renameParameters o) "input" = some (.obj s.input) := by
    rw [get?_renameParameters_input, Option.or_eq_some_iff]
    exact h.input
  have hid := h.id
  have htool := h.tool
  have hdepends := h.dependsOn
  have hdescription := h.description
  have hprobe := h.probe
  unfold Spells at hdepends hdescription hprobe
  rw [← get?_renameParameters (by decide) (by decide)] at hid htool hdepends hdescription hprobe
  rw [readStep]
  simp only [validateStep_eq_none.mpr hfits, Except.ok.injEq]
  rw [textField_of_some hid, textField_of_some htool, hinput,
    (spells_texts_iff fun v hv => accepts_of_fits hfits hv rfl).mp hdepends,
    (spells_text_iff fun v hv => accepts_of_fits hfits hv rfl).mp hdescription,
    (spells_bool_iff fun v hv => accepts_of_fits hfits hv rfl).mp hprobe]
  have hparallel := h.maxParallel
  cases s
  simp only at hparallel
  rw [hparallel]
  rfl

end steps

/-! ### Spellings of a plan -/

/-- The item spells the declaration of an operation. -/
def writeOperation (r : RequiredOperation) : Value := .obj [("tool", .str r.tool), ("input", .obj r.input)]

/-- The value is an object that spells the step. -/
def SpellsItem (v : Value) (s : DagStep) : Prop := ∃ o, v = .obj o ∧ SpellsStep o s

/-- The task state is one that there is, of a step that has been executed if any has. -/
def KnownTask (executed : List String) (t : String × String) : Prop :=
  (TaskState.ofValue? t.2).isSome = true ∧ (executed = [] ∨ t.1 ∈ executed)

/-- The object spells the plan. -/
structure SpellsPlan (executed : List String) (data : Obj) (p : DagPlan) : Prop where
  steps : ∃ raw, Obj.get? data "steps" = some (.arr raw) ∧ List.Forall₂ SpellsItem raw p.steps
  intent : Spells data "intent" .str "" p.intent
  failed : Spells data "failed" .bool false p.failed
  tasks : Spells data "step_tasks" (fun ts => .obj (ts.map fun t => (t.1, .str t.2))) [] p.stepTasks
  knownTasks : ∀ t ∈ p.stepTasks, KnownTask executed t
  declared : Spells data "declared_operations" (fun rs => .arr (rs.map writeOperation)) [] p.declaredOperations
  declaredTools : ∀ r ∈ p.declaredOperations, r.tool ≠ ""
  userIntent : p.userIntent = ""

section plans
variable [Py] {d : Decoding} {executed : List String} {data : Obj} {p : DagPlan}

/-- Each step of an accepted answer is one that the answer spells. -/
theorem forall₂_of_readSteps {raw : List Value} {steps : List DagStep} {i : ℕ}
    (h : readSteps d i raw = .ok steps) : List.Forall₂ SpellsItem raw steps := by
  induction raw generalizing i steps with
  | nil =>
      cases h
      exact .nil
  | cons v raw ih =>
      rw [readSteps] at h
      cases hread : readStep d i v with
      | error err =>
          rw [hread] at h
          cases h
      | ok s =>
          rw [hread] at h
          cases hrest : readSteps d (i + 1) raw with
          | error err =>
              simp only [hrest] at h
              cases h
          | ok rest =>
              simp only [hrest] at h
              cases h
              refine .cons ?_ (ih hrest)
              cases v with
              | obj o => exact ⟨o, rfl, spells_of_readStep hread⟩
              | null | bool | int | float | str | arr => cases hread

/-- A list of spellings is read as the steps. -/
theorem readSteps_of_forall₂ {raw : List Value} {steps : List DagStep} (h : List.Forall₂ SpellsItem raw steps)
    (hdistinct : ∀ v ∈ raw, v.distinct = true) (i : ℕ) : readSteps d i raw = .ok steps := by
  induction h generalizing i with
  | nil => rfl
  | @cons v s raw steps hitem hrest ih =>
      rw [List.forall_mem_cons] at hdistinct
      obtain ⟨o, rfl, hspells⟩ := hitem
      have hkeys := hdistinct.1
      rw [Value.distinct_obj, Bool.and_eq_true, decide_eq_true_eq] at hkeys
      rw [readSteps, (readStep_iff hkeys.1 i).mpr hspells, ih hdistinct.2]
      rfl

omit [Py] in
/-- Task states that are known are read as they are. -/
theorem readTasks_known {tasks : List (String × String)} (h : ∀ t ∈ tasks, KnownTask executed t) :
    readTasks executed (some (.obj (tasks.map fun t => (t.1, .str t.2)))) = tasks := by
  rw [readTasks, List.filterMap_map]
  induction tasks with
  | nil => rfl
  | cons t tasks ih =>
      rw [List.forall_mem_cons] at h
      have hknown : ¬(executed ≠ [] ∧ t.1 ∉ executed) := by
        rintro ⟨hne, hout⟩
        obtain hnil | hin := h.1.2
        · exact hne hnil
        · exact hout hin
      rw [List.filterMap_cons_some (b := t), ih h.2]
      simp only [Function.comp_apply, if_neg hknown, h.1.1, if_true]

omit [Py] in
/-- Every task state that is read is known. -/
theorem known_of_mem_readTasks {raw : Option Value} {t : String × String} (h : t ∈ readTasks executed raw) :
    KnownTask executed t := by
  cases raw with
  | none => cases h
  | some v =>
      cases v with
      | obj o =>
          rw [readTasks, List.mem_filterMap] at h
          obtain ⟨entry, -, hentry⟩ := h
          obtain ⟨sid, v⟩ := entry
          cases v with
          | str state =>
              simp only [Option.ite_none_left_eq_some, Option.some.injEq] at hentry
              obtain ⟨hin, rfl⟩ := hentry
              refine ⟨?_, ?_⟩
              · show (TaskState.ofValue? (if _ then _ else _)).isSome = true
                split_ifs with hstate
                · exact hstate
                · rfl
              · by_cases hnil : executed = []
                · exact .inl hnil
                · exact .inr (not_not.mp fun hout => hin ⟨hnil, hout⟩)
          | null | bool | int | float | arr | obj => cases hentry
      | null | bool | int | float | str | arr => cases h

omit [Py] in
theorem readOperations_write {rs : List RequiredOperation} (h : ∀ r ∈ rs, r.tool ≠ "") :
    readOperations (rs.map writeOperation) = some rs := by
  induction rs with
  | nil => rfl
  | cons r rs ih =>
      rw [List.forall_mem_cons] at h
      show (if r.tool = "" then _ else (readOperations (rs.map writeOperation)).map _) = _
      rw [if_neg h.1, ih h.2]
      rfl

omit [Py] in
/-- An operation that is read names a tool. -/
theorem tool_of_mem_readOperations {raw : List Value} {rs : List RequiredOperation}
    (h : readOperations raw = some rs) : ∀ r ∈ rs, r.tool ≠ "" := by
  induction raw generalizing rs with
  | nil =>
      cases h
      exact fun r hr => absurd hr List.not_mem_nil
  | cons v raw ih =>
      rw [readOperations.eq_def] at h
      split at h
      · rename_i hnil
        cases hnil
      · rename_i item rest hitem
        obtain ⟨rfl, rfl⟩ := List.cons.inj hitem
        split at h
        · split at h
          · split_ifs at h with hempty
            · exact ih h
            · obtain ⟨rest, hrest, rfl⟩ := Option.map_eq_some_iff.mp h
              exact List.forall_mem_cons.mpr ⟨hempty, ih hrest⟩
          · split_ifs at h
            exact ih h
        · exact ih h
      · rename_i hitem
        obtain ⟨rfl, rfl⟩ := List.cons.inj hitem
        exact ih h

omit [Py] in
/-- The fields of a spelling are read as those of the plan. -/
theorem SpellsPlan.planOfObject (h : SpellsPlan executed data p) : planOfObject executed data p.steps = some p := by
  have hdeclared : readDeclared (Obj.get? data "declared_operations") = some p.declaredOperations := by
    obtain hsome | ⟨hnone, hdefault⟩ := h.declared
    · rw [hsome]
      exact readOperations_write h.declaredTools
    · rw [hnone, hdefault]
      rfl
  have hintent : readIntent (Obj.get? data "intent") = some p.intent := by
    obtain hsome | ⟨hnone, hdefault⟩ := h.intent
    · rw [hsome]
      rfl
    · rw [hnone, hdefault]
      rfl
  have hfailed : readFailed (Obj.get? data "failed") = some p.failed := by
    obtain hsome | ⟨hnone, hdefault⟩ := h.failed
    · rw [hsome]
      rfl
    · rw [hnone, hdefault]
      rfl
  have htasks : readTasks executed (Obj.get? data "step_tasks") = p.stepTasks := by
    obtain hsome | ⟨hnone, hdefault⟩ := h.tasks
    · rw [hsome]
      exact readTasks_known h.knownTasks
    · rw [hnone, hdefault]
      rfl
  have huser := h.userIntent
  rw [JAgent.planOfObject, hdeclared, hintent, hfailed, htasks]
  cases p
  simp only at huser
  rw [huser]
  rfl

omit [Py] in
/-- What is read of an object besides its steps. -/
theorem fields_of_planOfObject {steps : List DagStep} (h : JAgent.planOfObject executed data steps = some p) :
    p.userIntent = "" ∧ p.steps = steps ∧ (∀ t ∈ p.stepTasks, KnownTask executed t) ∧
      ∀ r ∈ p.declaredOperations, r.tool ≠ "" := by
  rw [JAgent.planOfObject, Option.bind_eq_some_iff] at h
  obtain ⟨declared, hdeclared, h⟩ := h
  obtain ⟨intent, -, h⟩ := Option.bind_eq_some_iff.mp h
  obtain ⟨failed, -, rfl⟩ := Option.map_eq_some_iff.mp h
  refine ⟨rfl, rfl, fun t ht => known_of_mem_readTasks ht, ?_⟩
  intro r hr
  unfold readDeclared at hdeclared
  split at hdeclared
  · exact tool_of_mem_readOperations hdeclared r hr
  · rw [← Option.some.inj hdeclared] at hr
    cases hr

/-- An answer that is read as a plan. -/
theorem parsePlanResponse_eq_plan {response : String} (h : parsePlanResponse d response executed = .plan p) :
    ∃ data raw steps, parseLenientJson d.parseFloat response = .ok (.obj data) ∧
      Obj.get? data "steps" = some (.arr raw) ∧ readSteps d 0 raw = .ok steps ∧
      JAgent.planOfObject executed data steps = some p := by
  unfold parsePlanResponse at h
  split at h
  · cases h
  · cases h
  · rename_i data hdata
    split at h
    · rename_i raw hraw
      split at h
      · cases h
      · rename_i steps hsteps
        split at h
        · rename_i plan hplan
          cases h
          exact ⟨data, raw, steps, hdata, hraw, hsteps, hplan⟩
        · cases h
    · cases h
  · cases h

/-- **A plan is read as it was written.**  However the model spells it (fields in any order, defaults left
out, `parameters` for `input`) and presents it (alone, in a code fence, in prose), the answer is read as the
plan.  And nothing else is read as a plan: each step of a plan that is read is spelled in the answer, its
task states are known and belong to executed steps, and its declared operations name a tool. -/
theorem presented_plan_is_read (d : Decoding) (executed : List String) :
    (∀ (ascii : Bool) (data : Obj) (p : DagPlan) (text : String), (Value.obj data).distinct = true →
      (∀ x ∈ (Value.obj data).floats, FloatReadable d.parseFloat x) → SpellsPlan executed data p →
      Presents d.parseFloat (dumps (keepOrder ascii) (.obj data)).toList text →
      parsePlanResponse d text executed = .plan p) ∧
    ∀ (text : String) (p : DagPlan), parsePlanResponse d text executed = .plan p →
      (∃ data raw, parseLenientJson d.parseFloat text = .ok (.obj data) ∧
        Obj.get? data "steps" = some (.arr raw) ∧ List.Forall₂ SpellsItem raw p.steps) ∧
      p.userIntent = "" ∧ (∀ t ∈ p.stepTasks, KnownTask executed t) ∧
      ∀ r ∈ p.declaredOperations, r.tool ≠ "" := by
  constructor
  · intro ascii data p text hdistinct hfloats hspells hpresents
    have hloads := jsonLoads_dumps d.parseFloat ascii hdistinct hfloats
    have hshape : (dumps (keepOrder ascii) (.obj data)).toList =
        '\x7b' :: ((join ", " (dumpTextObj (keepOrder ascii) data)).toList ++ ['\x7d']) := by
      rw [← List.cons_append]
      exact toList_dumpText_obj ascii data
    rw [hshape] at hpresents
    rw [← String.ofList_toList (s := dumps _ _), hshape] at hloads
    have hdata := parseLenientJson_presents hloads hpresents
    obtain ⟨raw, hraw, hsteps⟩ := hspells.steps
    -- the items of `steps` are objects with distinct keys
    have hitems : ∀ v ∈ raw, v.distinct = true := by
      rw [Value.distinct_obj, Bool.and_eq_true] at hdistinct
      have harr := Value.distinctObj_iff.mp hdistinct.2 _ (Lib.mem_of_assoc hraw)
      rw [Value.distinct_arr] at harr
      exact Value.distinctList_iff.mp harr
    unfold parsePlanResponse
    simp only [hdata, hraw, readSteps_of_forall₂ hsteps hitems 0, hspells.planOfObject]
  · intro text p h
    obtain ⟨data, raw, steps, hdata, hraw, hsteps, hplan⟩ := parsePlanResponse_eq_plan h
    obtain ⟨huser, rfl, htasks, hdeclared⟩ := fields_of_planOfObject hplan
    exact ⟨⟨data, raw, hdata, hraw, forall₂_of_readSteps hsteps⟩, huser, htasks, hdeclared⟩

end plans

section sample

attribute [local instance] asciiPy

/-- A decoder that reads no fractions. -/
def plainDecoding : Decoding where
  parseFloat _ := none
  decodeError _ := "Expecting value at position 0"
  schemaError _ := ([], "not valid")

/-- A plan with a step that is spelled with `parameters`. -/
def listPlan : DagPlan where
  intent := "look around"
  steps := [{ id := "s1", tool := "file_op", input := [("operation", .str "list")] }]

/-- Its spelling. -/
def listData : Obj :=
  [("steps", .arr [.obj [("tool", .str "file_op"), ("parameters", .obj [("operation", .str "list")]),
    ("id", .str "s1")]]), ("intent", .str "look around")]

theorem listData_spells : SpellsPlan [] listData listPlan where
  steps := ⟨_, rfl, .cons ⟨_, rfl, {
    known := by decide
    id := rfl
    tool := rfl
    input := .inr ⟨rfl, rfl⟩
    dependsOn := .inr ⟨rfl, rfl⟩
    description := .inr ⟨rfl, rfl⟩
    probe := .inr ⟨rfl, rfl⟩
    maxParallel := rfl }⟩ .nil⟩
  intent := .inl rfl
  failed := .inr ⟨rfl, rfl⟩
  tasks := .inr ⟨rfl, rfl⟩
  knownTasks := fun _ ht => absurd ht List.not_mem_nil
  declared := .inr ⟨rfl, rfl⟩
  declaredTools := fun _ hr => absurd hr List.not_mem_nil
  userIntent := rfl

/-- The plan is read from the fence it is in. -/
theorem fenced_plan_read : parsePlanResponse plainDecoding (String.ofList (fenceMark ++ "json".toList ++
    '\n' :: (dumps (keepOrder true) (.obj listData)).toList ++ '\n' :: fenceMark)) [] = .plan listPlan := by
  have hfloats : (Value.obj listData).floats = [] := rfl
  refine (presented_plan_is_read plainDecoding []).1 true listData listPlan _ (by decide)
    (fun x hx => absurd (hfloats ▸ hx) List.not_mem_nil) listData_spells ?_
  have hfenced : Presents plainDecoding.parseFloat (dumps (keepOrder true) (.obj listData)).toList
      (String.ofList ([] ++ fenceMark ++ "json".toList ++ '\n' :: [] ++
        (dumps (keepOrder true) (.obj listData)).toList ++ ['\n'] ++ fenceMark ++ [])) := by
    apply Presents.fenced
    · exact fun c hc => absurd hc List.not_mem_nil
    · decide
    · exact fun c hc => absurd hc List.not_mem_nil
    · intro c hc
      obtain rfl := List.mem_singleton.mp hc
      decide
    · exact List.not_mem_nil
  simpa using hfenced

end sample

end JAgent
