import JAgent.Core.Recovery
import JAgent.Tools.FileOp
import JAgent.Tools.Skills

/-! # The HTTP tool and the two notions of a read-only action

The declaration of `http_request`.  Whether an action has side effects is decided twice in the
repository: by the contract of the operation that the input names (`stepIsMutating`), which is found by
comparing names exactly, and by the whitelist of step-local repair (`isReadOnlyAction`), which compares
HTTP methods after folding them to upper case.  For the tools that the server registers the two agree on
every action whose method is spelled as the contract spells it (`not_mutating_of_isReadOnly`). -/

namespace JAgent

/-! ### The declaration -/

/-- `input_schema` of `http_request`. -/
def httpRequestInputSchema : Obj :=
  [("type", .str "object"),
    ("properties", .obj
      [("url", .obj
        [("type", .str "string"), ("description", .str "Target URL"), ("x-role", .str "authority")]),
        ("method", .obj
          [("type", .str "string"),
            ("enum", .arr [.str "GET", .str "POST", .str "PUT", .str "DELETE", .str "PATCH", .str "HEAD"]),
            ("default", .str "GET"), ("x-role", .str "authority")]),
        ("headers", .obj
          [("type", .str "object"), ("description", .str "Optional HTTP headers"),
            ("x-role", .str "data")]),
        ("body", .obj
          [("type", .str "object"), ("description", .str "JSON body for POST/PUT/PATCH"),
            ("x-role", .str "data")]),
        ("timeout_ms", .obj [("type", .str "integer"), ("default", .int 30000)]),
        ("max_response_bytes", .obj [("type", .str "integer"), ("default", .int 65536)])]),
    ("required", .arr [.str "url"])]

/-- `output_schema` of `http_request`. -/
def httpRequestOutputSchema : Obj :=
  [("type", .str "object"),
    ("properties", .obj
      [("url", .obj [("type", .str "string")]), ("method", .obj [("type", .str "string")]),
        ("status_code", .obj [("type", .str "integer")]), ("headers", .obj [("type", .str "object")]),
        ("body", .obj [("type", .str "string")]), ("elapsed_ms", .obj [("type", .str "integer")])])]

/-- The contract of one method; it inherits the output schema of the tool. -/
def httpOperation (name : String) (sideEffects : List SideEffect) (probeAllowed : Bool) :
    OperationContract :=
  { operation := name, outputSchema := httpRequestOutputSchema, sideEffects := sideEffects,
    probeAllowed := probeAllowed }

/-- The definition of `http_request`. -/
def httpRequest : ToolDefinition :=
  { name := "http_request"
    inputSchema := httpRequestInputSchema
    outputSchema := httpRequestOutputSchema
    sideEffects := [.external]
    idempotencyKeyFields := some ["url", "method", "headers", "body"]
    guardrails := [{ guardrailType := "scope" }, { guardrailType := "egress" }]
    timeoutMs := 60000
    successIndicator := some { field := "status_code", op := .lt, value := .int 400 }
    operations := [httpOperation "GET" [] true, httpOperation "HEAD" [] true,
      httpOperation "POST" [.external] false, httpOperation "PUT" [.external] false,
      httpOperation "PATCH" [.external] false, httpOperation "DELETE" [.external] false]
    operationKey := "method"
    defaultOperation := some "GET"
    scopeTargets := [{ kind := .domain, inputField := "url" }] }

/-- The definitions of the tools with a whitelist of their own. -/
def whitelistedDefs : List ToolDefinition := [fileOp, httpRequest, fetchOutput]

/-! ### Where the two notions agree -/

section agreement
variable {input : Obj}

/-- A method that is absent, or is GET or HEAD to the letter, has no side effect. -/
theorem httpRequest_sideEffects
    (h : ∀ v, Obj.get? input "method" = some v → v = .str "GET" ∨ v = .str "HEAD") :
    httpRequest.effectiveSideEffects input = [] := by
  unfold ToolDefinition.effectiveSideEffects ToolDefinition.resolveOperation
  cases hm : Obj.get? input "method" with
  | none => simp [httpRequest, hm, httpOperation]
  | some v =>
      rcases h v hm with rfl | rfl <;> simp [httpRequest, hm, httpOperation]

theorem fileOp_sideEffects
    (h : Obj.get? input "operation" = some (.str "read") ∨ Obj.get? input "operation" = some (.str "list")) :
    fileOp.effectiveSideEffects input = [] := by
  unfold ToolDefinition.effectiveSideEffects ToolDefinition.resolveOperation
  rcases h with h | h <;> simp [fileOp, h, fileOperation]

theorem fetchOutput_sideEffects : fetchOutput.effectiveSideEffects input = [] := by
  unfold ToolDefinition.effectiveSideEffects
  split
  next op hop =>
    have hmem : op ∈ fetchOutput.operations := by
      unfold ToolDefinition.resolveOperation at hop
      split_ifs at hop
      split at hop
      · split at hop
        · exact List.mem_of_find?_eq_some hop
        · cases hop
      · split at hop
        · exact List.mem_of_find?_eq_some hop
        · cases hop
      · exact List.mem_of_find?_eq_some hop
    simp only [fetchOutput, List.mem_singleton] at hmem
    rw [hmem]
  next => rfl

/-- **The whitelist is sound for actions that are spelled as the contracts spell them.** -/
theorem not_mutating_of_isReadOnly [Py] {step : DagStep}
    (hmethod : step.tool = "http_request" → ∀ v, Obj.get? step.input "method" = some v →
      v = .str "GET" ∨ v = .str "HEAD")
    (hop : step.tool = "file_op" → ∃ op, Obj.get? step.input "operation" = some (.str op))
    (h : isReadOnlyAction step.tool step.input (readOnlyToolMap whitelistedDefs) = true) :
    stepIsMutating (.ofDefs whitelistedDefs) step = false := by
  have hmap : readOnlyToolMap whitelistedDefs = ["fetch_output"] := by decide +kernel
  rw [hmap] at h
  unfold isReadOnlyAction at h
  split_ifs at h with hexp hfetch hhttp hfile
  · rw [List.contains_eq_mem, decide_eq_true_eq, List.mem_singleton] at hexp
    have hdef : (Registry.ofDefs whitelistedDefs).getToolDef step.tool = some fetchOutput := by
      rw [hexp]
      rfl
    simp [stepIsMutating, hdef, fetchOutput_sideEffects]
  · simp [hfetch] at hexp
  · have hdef : (Registry.ofDefs whitelistedDefs).getToolDef step.tool = some httpRequest := by
      rw [hhttp]
      rfl
    simp [stepIsMutating, hdef, httpRequest_sideEffects (hmethod hhttp)]
  · obtain ⟨op, hop⟩ := hop hfile
    have hdef : (Registry.ofDefs whitelistedDefs).getToolDef step.tool = some fileOp := by
      rw [hfile]
      rfl
    rw [hop] at h
    have hread : op = "read" ∨ op = "list" := by simpa [pyStr] using h
    have hnone : fileOp.effectiveSideEffects step.input = [] := by
      refine fileOp_sideEffects ?_
      rcases hread with rfl | rfl
      · exact .inl hop
      · exact .inr hop
    simp [stepIsMutating, hdef, hnone]

end agreement
end JAgent
