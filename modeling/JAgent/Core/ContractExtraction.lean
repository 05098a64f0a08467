import JAgent.Core.Planner
import JAgent.Models.Payloads

/-! # Delivery contracts from the model

What the user requires is extracted from the intent by the model, whose answer is not trusted: every listed
operation has to pass the check that the API applies to contracts of a caller as well (`deliveryContractErrors`),
and is dropped otherwise.  An answer of which nothing is left goes back to the model with the reasons, and so
does an exception of the model; when the attempts are used up there are no contracts.

`Accepted` says what a contract that passes the check is like, and `extraction_sound` what comes out of an
extraction. -/

namespace JAgent

/-! ### The check of a contract -/

section check
variable [Py] (tool : String) (td : ToolDefinition) (input : Obj)

/-- The fields with more of them, each one once. -/
def addFields : List String → List String → List String
  | fields, [] => fields
  | fields, field :: more => addFields (if fields.contains field then fields else fields ++ [field]) more

/-- The fields that the input must have: those of the tool, the one that names the operation, and those of
the operation that it names. -/
def requiredFields : List String :=
  let required := textsField td.inputSchema "required" ++
    if td.operations.isEmpty then [] else [td.operationKey]
  match td.resolveOperation input with
  | some op => addFields required op.requiredInput
  | none => required

/-- The field is there and not empty. -/
def present (field : String) : Bool :=
  match Obj.get? input field with
  | none | some .null | some (.str "") => false
  | some _ => true

/-- What is wrong with the value of a declared property. -/
def propertyErrors (field : String) (definition : Obj) (value : Value) : List String :=
  (match Obj.get? definition "enum" with
    | some (.arr allowed) =>
        if allowed.any (Value.pyEq value) then []
        else [tool ++ ".input." ++ field ++ " must be one of " ++ pyStr (.arr allowed)]
    | _ => []) ++
  (if Obj.get? definition "type" = some (.str "string") ∧ value.asStr? = none then
    [tool ++ ".input." ++ field ++ " must be a string"] else []) ++
  (if Obj.get? definition "type" = some (.str "object") ∧ value.asObj? = none then
    [tool ++ ".input." ++ field ++ " must be an object"] else [])

/-- The errors of the declared properties that the input has. -/
def propertiesErrors : List String :=
  match Obj.get? td.inputSchema "properties" with
  | some (.obj properties) => properties.flatMap fun property =>
      match property.2, Obj.get? input property.1 with
      | .obj definition, some value => propertyErrors tool property.1 definition value
      | _, _ => []
  | _ => []

/-- What is written must be a text. -/
def contentErrors : List String :=
  match td.resolveOperation input, Obj.get? input "content" with
  | some op, some content =>
      if td.name = "file_op" ∧ op.operation ∈ ["write", "append"] ∧ content.asStr? = none then
        ["file_op.input.content must be a string"]
      else []
  | _, _ => []

/-- `validate_delivery_contract_input`, of an object for a tool that there is. -/
def deliveryContractErrors : List String :=
  if input = [] then ["input must be a non-empty object"]
  else
    let errors := ((requiredFields td input).filter fun field => !present input field).map
        (fun field => tool ++ ".input." ++ field ++ " is required") ++
      propertiesErrors tool td input ++ contentErrors td input
    if errors ≠ [] then errors
    else if td.operations = [] then []
    else
      let operation := (Obj.get? input td.operationKey).getD .null
      if td.operations.any (fun op => Value.pyEq (.str op.operation) operation) then []
      else [tool ++ " has no declared operation '" ++ pyStr operation ++ "'"]

end check

/-! ### The extraction -/

section extraction
variable [Py] [Sha256] (registry : Registry) (d : Decoding)

/-- `DeliveryContract(tool=…, input=…, source=extracted)`; the id is that of the content. -/
def extractedContract (tool : String) (input : Obj) : DeliveryContract where
  tool := tool
  input := input
  source := .extracted
  contractId := contentId (dumps { ensureAscii := false } (.obj [("tool", .str tool), ("input", .obj input)]))

/-- `_validate`: the contract of an item, or the reason for which it is dropped. -/
def validateItem (item : Obj) : Except String DeliveryContract :=
  match (Obj.get? item "tool").getD (.str "") with
  | .str tool =>
      if tool = "" then .error "operation missing a 'tool' name"
      else match registry.toolDefOrError tool with
        | .error unknown => .error unknown
        | .ok td => match Obj.get? item "input" with
          | some (.obj input) =>
              let errors := deliveryContractErrors tool td input
              if errors = [] then .ok (extractedContract tool input)
              else .error ("tool '" ++ tool ++ "': " ++ join "; " errors)
          | _ => .error ("tool '" ++ tool ++ "': input not an object")
  | _ => .error "operation missing a 'tool' name"

/-- What is made of a listed operation. -/
def validateListed : Value → Except String DeliveryContract
  | .obj item => validateItem registry item
  | _ => .error "a listed operation was not an object"

/-- The contracts among the listed operations. -/
def keptContracts (rawOps : List Value) : List DeliveryContract :=
  rawOps.filterMap fun v => (validateListed registry v).toOption

/-- The reasons of the operations that are dropped. -/
def droppedReasons (rawOps : List Value) : List String :=
  rawOps.filterMap fun v => match validateListed registry v with
    | .ok _ => none
    | .error reason => some reason

/-- `_parse`. -/
def parseExtraction (response : String) : Except String (List DeliveryContract) :=
  match parseLenientJson d.parseFloat (String.ofList (strip response.toList)) with
  | .error .noObject => .error "no JSON object found in extraction response"
  | .error (.invalid _) => .error "extraction JSON parse failed"
  | .ok (.obj data) => match Obj.get? data "required_operations" with
    | none | some .null => .error "missing 'required_operations' key"
    | some (.arr rawOps) =>
        if keptContracts registry rawOps ≠ [] ∨ droppedReasons registry rawOps = [] then
          .ok (keptContracts registry rawOps)
        else .error ("all listed operations were rejected: " ++ join " | " (droppedReasons registry rawOps))
    | some _ => .error "'required_operations' is not a list"
  | .ok _ => .error "response JSON root is not an object"

/-- `_EXTRACT_RETRY_PROMPT`. -/
def extractRetryPrompt (toolNames error : String) : String :=
  "Your previous extraction response had a format or validation error:\n" ++ error ++ "\n\n" ++
    "Re-respond with ONLY valid JSON of this exact shape: " ++
    "\x7b\"required_operations\": [\x7b\"tool\": \"<tool_name>\", \"input\": \x7b<key>: <value>\x7d\x7d]\x7d\n" ++
    "Available tools: " ++ toolNames ++ "\n" ++
    "If the request truly has no hard delivery requirement, return \x7b\"required_operations\": []\x7d."

/-- The extractor; `prompt` is the text of `_build_prompt`, `toolNames` the sorted names of the tools. -/
structure ContractExtractor (W : Type) where
  llm : List Message → W → ModelAnswer × W
  registry : Registry
  decoding : Decoding
  maxRetries : ℕ := 1
  prompt : String → String
  toolNames : String

namespace ContractExtractor
variable {W : Type} (ex : ContractExtractor W)

/-- The loop over the attempts: an exception of the model is refused like an answer that is rejected. -/
def attemptsFor (intent : String) : Lib.Dialogue (List Message) ModelAnswer String (List DeliveryContract) W where
  question := attemptMessages (ex.prompt intent) (extractRetryPrompt ex.toolNames)
  judge
    | .error why => .refused why
    | .ok response => match parseExtraction ex.registry ex.decoding response with
      | .ok contracts => .taken contracts
      | .error reason => .refused reason
  note _ _ w := w

/-- `extract`. -/
def extract (intent : String) (w : W) :
    List DeliveryContract × List (Lib.Exchange (List Message) ModelAnswer) × W :=
  if intent = "" then ([], [], w)
  else
    let held := (ex.attemptsFor intent).hold ex.llm 1 (ex.maxRetries + 1) "" w
    (held.1.getD [], held.2)

end ContractExtractor

end extraction

/-! ### What passes the check -/

section accepted
variable [Py] {tool : String} {td : ToolDefinition} {input : Obj}

/-- The input of a contract that passes the check. -/
structure Accepted (td : ToolDefinition) (input : Obj) : Prop where
  nonempty : input ≠ []
  required : ∀ field ∈ textsField td.inputSchema "required", present input field = true
  properties : propertiesErrors "" td input = []
  operation : td.operations ≠ [] → ∃ op ∈ td.operations, td.resolveOperation input = some op ∧
    Obj.get? input td.operationKey = some (.str op.operation) ∧
    ∀ field ∈ op.requiredInput, present input field = true

/-- The names of errors do not decide whether there are any. -/
theorem propertiesErrors_eq_nil (other : String) :
    propertiesErrors tool td input = [] ↔ propertiesErrors other td input = [] := by
  have hone : ∀ field definition value, propertyErrors tool field definition value = [] ↔
      propertyErrors other field definition value = [] := by
    intro field definition value
    unfold propertyErrors
    simp only [List.append_eq_nil_iff]
    refine and_congr (and_congr ?_ ?_) ?_
    · split
      · split_ifs <;> simp
      · rfl
    · split_ifs <;> simp
    · split_ifs <;> simp
  unfold propertiesErrors
  split
  · simp only [List.flatMap_eq_nil_iff]
    refine forall₂_congr fun property _ => ?_
    split
    · exact hone _ _ _
    · rfl
  · rfl

omit [Py] in
theorem mem_addFields {field : String} (fields more : List String) :
    field ∈ addFields fields more ↔ field ∈ fields ∨ field ∈ more := by
  induction more generalizing fields with
  | nil => simp [addFields]
  | cons f more ih =>
      rw [addFields, ih, List.mem_cons]
      split_ifs with hf
      · rw [List.contains_eq_mem, decide_eq_true_eq] at hf
        constructor
        · rintro (h | h)
          · exact .inl h
          · exact .inr (.inr h)
        · rintro (h | rfl | h)
          · exact .inl h
          · exact .inl hf
          · exact .inr h
      · rw [List.mem_append, List.mem_singleton, or_assoc]

omit [Py] in
/-- A field that is there has a value. -/
theorem get?_of_present {field : String} (h : present input field = true) :
    ∃ v, Obj.get? input field = some v ∧ v ≠ .null := by
  unfold present at h
  split at h
  · cases h
  · cases h
  · cases h
  · rename_i v hnull hempty hget
    exact ⟨v, hget, hnull⟩

/-- **A contract passes the check** only if its input has what the tool requires and names one of the
operations of the tool, with what this operation requires. -/
theorem accepted_of_errors_nil (h : deliveryContractErrors tool td input = []) : Accepted td input := by
  unfold deliveryContractErrors at h
  dsimp only at h
  by_cases hempty : input = []
  · rw [if_pos hempty] at h
    cases h
  rw [if_neg hempty] at h
  by_cases herrors : ((requiredFields td input).filter fun field => !present input field).map
      (fun field => tool ++ ".input." ++ field ++ " is required") ++ propertiesErrors tool td input ++
      contentErrors td input = []
  · rw [if_neg (not_not.mpr herrors)] at h
    rw [List.append_eq_nil_iff, List.append_eq_nil_iff, List.map_eq_nil_iff, List.filter_eq_nil_iff] at herrors
    have hpresent : ∀ field ∈ requiredFields td input, present input field = true := by
      intro field hfield
      simpa using herrors.1.1 field hfield
    have hrequired : ∀ field, field ∈ textsField td.inputSchema "required" ++
        (if td.operations.isEmpty then [] else [td.operationKey]) → present input field = true := by
      intro field hfield
      apply hpresent
      unfold requiredFields
      dsimp only
      cases td.resolveOperation input with
      | some op => exact (mem_addFields _ _).mpr (.inl hfield)
      | none => exact hfield
    refine ⟨hempty, fun field hfield => hrequired field (List.mem_append_left _ hfield),
      (propertiesErrors_eq_nil "").mp herrors.1.2, fun hoperations => ?_⟩
    rw [if_neg hoperations] at h
    have hnonempty : td.operations.isEmpty = false := List.isEmpty_eq_false_iff.mpr hoperations
    obtain ⟨v, hv, hnull⟩ := get?_of_present (hrequired td.operationKey
      (List.mem_append_right _ (by rw [hnonempty]; exact List.mem_singleton_self _)))
    -- the operation that is named is one of the tool
    have hany : td.operations.any (fun op => Value.pyEq (.str op.operation) v) = true := by
      rw [hv, Option.getD_some] at h
      by_contra hnone
      rw [if_neg hnone] at h
      cases h
    have hresolve : td.resolveOperation input =
        td.operations.find? fun op => Value.str op.operation = v := by
      unfold ToolDefinition.resolveOperation
      rw [hnonempty, hv]
      cases v <;> first
        | exact absurd rfl hnull
        | rfl
    obtain ⟨op', hop', heq'⟩ := List.any_eq_true.mp hany
    rw [Value.pyEq, decide_eq_true_eq] at heq'
    cases hfind : td.operations.find? fun op => Value.str op.operation = v with
    | none =>
        rw [List.find?_eq_none] at hfind
        exact absurd (decide_eq_true heq'.symm) (hfind op' hop')
    | some op =>
        have hname : Value.str op.operation = v := by simpa using List.find?_some hfind
        have hop := hresolve.trans hfind
        refine ⟨op, List.mem_of_find?_eq_some hfind, hop, by rw [hv, hname], fun field hfield => ?_⟩
        apply hpresent
        unfold requiredFields
        rw [hop]
        exact (mem_addFields _ _).mpr (.inr hfield)
  · rw [if_pos herrors] at h
    exact absurd h herrors

end accepted

/-! ### What is extracted -/

section extracted
variable [Py] [Sha256] {registry : Registry} {d : Decoding} {W : Type}

/-- A contract that is kept is an accepted operation of a tool that there is. -/
structure Extracted (registry : Registry) (c : DeliveryContract) : Prop where
  tool : ∃ td, registry.getToolDef c.tool = some td ∧ Accepted td c.input
  source : c.source = .extracted

theorem extracted_of_validateListed {v : Value} {c : DeliveryContract}
    (h : validateListed registry v = .ok c) : Extracted registry c := by
  cases v with
  | obj item =>
      rw [validateListed, validateItem] at h
      split at h
      · rename_i tool htool
        split_ifs at h
        rw [Registry.toolDefOrError] at h
        cases hdef : registry.getToolDef tool with
        | none =>
            rw [hdef] at h
            cases h
        | some td =>
            rw [hdef] at h
            dsimp only at h
            split at h
            · rename_i input hinput
              split_ifs at h with herrors
              cases h
              exact ⟨⟨td, hdef, accepted_of_errors_nil herrors⟩, rfl⟩
            · cases h
      · cases h
  | null | bool | int | float | str | arr => cases h

/-- The contracts of an answer that is taken are extracted ones, and they are none only if nothing was
dropped. -/
theorem parseExtraction_ok {response : String} {contracts : List DeliveryContract}
    (h : parseExtraction registry d response = .ok contracts) : (∀ c ∈ contracts, Extracted registry c) ∧
      ∃ rawOps, contracts = keptContracts registry rawOps ∧
        (contracts = [] → droppedReasons registry rawOps = []) := by
  unfold parseExtraction at h
  split at h
  · cases h
  · cases h
  · split at h
    · cases h
    · cases h
    · rename_i rawOps hops
      split_ifs at h with hkept
      cases h
      refine ⟨fun c hc => ?_, rawOps, rfl, fun hnil => hkept.resolve_left (not_not.mpr hnil)⟩
      obtain ⟨v, -, hv⟩ := List.mem_filterMap.mp hc
      cases hlisted : validateListed registry v with
      | error reason =>
          rw [hlisted] at hv
          cases hv
      | ok c' =>
          rw [hlisted] at hv
          cases hv
          exact extracted_of_validateListed hlisted
    · cases h
  · cases h

/-- What is refused of an answer: the exception of the model, or the reason for which the text is rejected. -/
def refusal (ex : ContractExtractor W) : ModelAnswer → Option String
  | .error why => some why
  | .ok response => match parseExtraction ex.registry ex.decoding response with
    | .ok _ => none
    | .error reason => some reason

theorem judge_attemptsFor (ex : ContractExtractor W) (intent : String) (answer : ModelAnswer) (reason : String) :
    (ex.attemptsFor intent).judge answer = .refused reason ↔ refusal ex answer = some reason := by
  cases answer with
  | error why =>
      show Lib.Verdict.refused why = .refused reason ↔ some why = some reason
      rw [Lib.Verdict.refused.injEq, Option.some.injEq]
  | ok response =>
      dsimp only [ContractExtractor.attemptsFor, refusal]
      cases parseExtraction ex.registry ex.decoding response with
      | ok contracts => exact iff_of_false (fun h => by cases h) (fun h => by cases h)
      | error reason' => rw [Lib.Verdict.refused.injEq, Option.some.injEq]

/-- **What an extraction gives.**  The model is asked at most `maxRetries + 1` times, and again only after an
exception or an answer of which nothing could be kept, with the reason.  Every contract is an operation of a
tool that there is, with all that the tool and the operation require; and there are none only if the intent
is empty, every attempt was refused, or the last answer lists no operation. -/
theorem extraction_sound (ex : ContractExtractor W) (intent : String) (w : W) :
    (ex.extract intent w).2.1.length ≤ ex.maxRetries + 1 ∧
    (∀ i x y, (ex.extract intent w).2.1[i]? = some x → (ex.extract intent w).2.1[i + 1]? = some y →
      ∃ reason, refusal ex x.answer = some reason ∧
        y.question = attemptMessages (ex.prompt intent) (extractRetryPrompt ex.toolNames) reason) ∧
    (∀ c ∈ (ex.extract intent w).1, Extracted ex.registry c) ∧
    ((ex.extract intent w).1 = [] → intent = "" ∨
      ((ex.extract intent w).2.1.length = ex.maxRetries + 1 ∧
        ∀ x ∈ (ex.extract intent w).2.1, (refusal ex x.answer).isSome = true) ∨
      ∃ front last response rawOps, (ex.extract intent w).2.1 = front ++ [last] ∧ last.answer = .ok response ∧
        parseExtraction ex.registry ex.decoding response = .ok (keptContracts ex.registry rawOps) ∧
        keptContracts ex.registry rawOps = [] ∧ droppedReasons ex.registry rawOps = []) := by
  unfold ContractExtractor.extract
  by_cases hintent : intent = ""
  · rw [if_pos hintent]
    refine ⟨Nat.zero_le _, fun i x y hx => (by cases hx), fun c hc => absurd hc List.not_mem_nil,
      fun _ => .inl hintent⟩
  rw [if_neg hintent]
  dsimp only
  have hfollows : (ex.attemptsFor intent).Follows ""
      ((ex.attemptsFor intent).hold ex.llm 1 (ex.maxRetries + 1) "" w).2.1 := Lib.Dialogue.hold_follows _ _ _ _
  have hends : (ex.attemptsFor intent).Ends (ex.maxRetries + 1)
      ((ex.attemptsFor intent).hold ex.llm 1 (ex.maxRetries + 1) "" w).1
      ((ex.attemptsFor intent).hold ex.llm 1 (ex.maxRetries + 1) "" w).2.1 := Lib.Dialogue.hold_ends _ _ _ _
  have hlength : ((ex.attemptsFor intent).hold ex.llm 1 (ex.maxRetries + 1) "" w).2.1.length ≤
      ex.maxRetries + 1 := Lib.Dialogue.hold_length _ _ _ _
  generalize ((ex.attemptsFor intent).hold ex.llm 1 (ex.maxRetries + 1) "" w).1 = result at hends ⊢
  generalize ((ex.attemptsFor intent).hold ex.llm 1 (ex.maxRetries + 1) "" w).2.1 = xs at hfollows hends hlength ⊢
  refine ⟨hlength, fun i x y hx hy => ?_, ?_⟩
  · obtain ⟨reason, hjudge, hquestion⟩ := hfollows.next hx hy
    exact ⟨reason, (judge_attemptsFor ex intent x.answer reason).mp hjudge, hquestion⟩
  cases hends with
  | exhausted hrefused hlast =>
      refine ⟨fun c hc => absurd hc List.not_mem_nil, fun _ => .inr (.inl ⟨hlast, fun x hx => ?_⟩)⟩
      obtain ⟨reason, hjudge⟩ := hrefused x hx
      rw [(judge_attemptsFor ex intent x.answer reason).mp hjudge]
      rfl
  | @taken front last contracts hrefused hjudge =>
      obtain ⟨response, hanswer, hparse⟩ : ∃ response, last.answer = .ok response ∧
          parseExtraction ex.registry ex.decoding response = .ok contracts := by
        cases hanswer : last.answer with
        | error why =>
            rw [hanswer] at hjudge
            cases hjudge
        | ok response =>
            rw [hanswer] at hjudge
            dsimp only [ContractExtractor.attemptsFor] at hjudge
            cases hparse : parseExtraction ex.registry ex.decoding response with
            | ok contracts' =>
                rw [hparse] at hjudge
                cases hjudge
                exact ⟨response, rfl, hparse⟩
            | error reason =>
                rw [hparse] at hjudge
                cases hjudge
      obtain ⟨hall, rawOps, hkept, hdropped⟩ := parseExtraction_ok hparse
      refine ⟨hall, fun hnil => .inr (.inr ⟨front, last, response, rawOps, rfl, hanswer, ?_, ?_, hdropped hnil⟩)⟩
      · rw [hparse, hkept]
      · rw [← hkept]
        exact hnil

end extracted

end JAgent
