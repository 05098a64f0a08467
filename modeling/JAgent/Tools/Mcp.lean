import JAgent.Tools.Runtime

/-! # Tools of MCP servers

The definitions of the tools behind a Model Context Protocol server: `mcp_call` itself, the tools
a connected server exposes (`mcpDynamicTool`) and the browser tools (`browserMcpTool`) with the
policy under which they are registered.

Dynamic tools and browser tools declare an empty list of key fields.  An empty list is not the
absence of key fields: `idempotencyKey_of_no_fields` says that it gives all inputs one key. -/

namespace JAgent

/-- Every MCP tool attaches the scope guardrail without configuration. -/
def scopeGuardrail : Guardrail := { guardrailType := "scope" }

/-- The success indicator of the tools that answer with a `success` flag. -/
def successFlag : SuccessIndicator := { field := "success", op := .eq, value := .bool true }

/-- The output schema of a tool that answers with a list of contents. -/
def contentOutputSchema : Obj :=
  [("type", .str "object"),
    ("properties", .obj
      [("success", .obj [("type", .str "boolean")]), ("content", .obj [("type", .str "array")]),
        ("error", .obj [("type", .str "string")])])]

/-- The definition of `mcp_call`. -/
def mcpCall : ToolDefinition :=
  { name := "mcp_call"
    inputSchema :=
      [("type", .str "object"),
        ("properties", .obj
          [("server_name", .obj
            [("type", .str "string"), ("description", .str "Name of the MCP server")]),
            ("tool_name", .obj
              [("type", .str "string"), ("description", .str "Name of the MCP tool to call")]),
            ("arguments", .obj [("type", .str "object"), ("default", .obj [])])]),
        ("required", .arr [.str "tool_name"])]
    outputSchema := contentOutputSchema
    sideEffects := [.external]
    idempotencyKeyFields := some ["server_name", "tool_name", "arguments"]
    guardrails := [scopeGuardrail]
    timeoutMs := 60000
    successIndicator := some successFlag }

/-- `McpDynamicTool`: a tool a connected server exposes. -/
def mcpDynamicTool (name : String) (inputSchema : Obj) : ToolDefinition :=
  { name, inputSchema
    sideEffects := [.external]
    idempotencyKeyFields := some []
    guardrails := [scopeGuardrail]
    timeoutMs := 60000 }

/-! ### Browser tools -/

structure BrowserToolPolicy where
  name : String
  blocked : Bool
  blockReason : String := ""
  requiresConfirmation : Bool := false
  readOnly : Bool := false
deriving DecidableEq

def BrowserToolPolicy.sideEffects (p : BrowserToolPolicy) : List SideEffect :=
  if p.readOnly then [] else [.external]

def readonlyTools : List String :=
  ["browser_snapshot", "browser_find", "browser_take_screenshot", "browser_console_messages",
    "browser_network_requests", "browser_wait_for"]

def confirmationTools : List String := ["browser_file_upload"]

def hardBlockedTools : List String := ["browser_run_code_unsafe"]

def evaluateTool : String := "browser_evaluate"

/-- The trusted policy of a browser tool. -/
def policyFor (toolName : String) (allowEvaluate : Bool) : BrowserToolPolicy :=
  if hardBlockedTools.contains toolName then
    { name := toolName, blocked := true
      blockReason := "RCE-class tool is permanently disabled by harness security policy" }
  else if toolName = evaluateTool && !allowEvaluate then
    { name := toolName, blocked := true
      blockReason := "browser_evaluate executes arbitrary JavaScript; disabled by default " ++
        "(set HARNESS_BROWSER_ALLOW_EVALUATE=1 to enable with human confirmation)" }
  else if toolName = evaluateTool then
    { name := toolName, blocked := false, requiresConfirmation := true }
  else if confirmationTools.contains toolName then
    { name := toolName, blocked := false, requiresConfirmation := true }
  else if readonlyTools.contains toolName then
    { name := toolName, blocked := false, readOnly := true }
  else { name := toolName, blocked := false }

/-- `BrowserMcpTool`: one tool of the browser server, under its policy. -/
def browserMcpTool (name : String) (inputSchema : Obj) (policy : BrowserToolPolicy) :
    ToolDefinition :=
  { name, inputSchema
    outputSchema := contentOutputSchema
    sideEffects := policy.sideEffects
    requiresConfirmation := policy.requiresConfirmation
    idempotencyKeyFields := some []
    guardrails := [scopeGuardrail]
    timeoutMs := 120000
    successIndicator := some successFlag
    maxParallel := 1 }

/-- The browser tools that are registered. -/
def registerBrowserTools (allowEvaluate : Bool) (tools : List (String × Obj)) :
    List ToolDefinition :=
  tools.filterMap fun t =>
    let policy := policyFor t.1 allowEvaluate
    if policy.blocked then none else some (browserMcpTool t.1 t.2 policy)

section keys
variable [Py] (digest : String → String)

/-- A tool without operations whose list of key fields is empty gives every input one key. -/
theorem idempotencyKey_of_no_fields {td : ToolDefinition} (hop : td.operations = [])
    (hk : td.idempotencyKeyFields = some []) (input input' : Obj) :
    idempotencyKey digest td input = idempotencyKey digest td input' := by
  have hfields : ∀ i, td.effectiveIdempotencyKeyFields i = some [] := by
    intro i
    unfold ToolDefinition.effectiveIdempotencyKeyFields ToolDefinition.resolveOperation
    rw [hop, hk]
    rfl
  unfold idempotencyKey computeKey
  rw [hfields, hfields]
  rfl

/-- All calls of one registered browser tool have the same key. -/
theorem idempotencyKey_browser {allowEvaluate : Bool} {tools : List (String × Obj)}
    {td : ToolDefinition} (h : td ∈ registerBrowserTools allowEvaluate tools)
    (input input' : Obj) : idempotencyKey digest td input = idempotencyKey digest td input' := by
  unfold registerBrowserTools at h
  obtain ⟨t, _, ht⟩ := List.mem_filterMap.mp h
  simp only at ht
  split_ifs at ht
  obtain rfl := Option.some.inj ht
  exact idempotencyKey_of_no_fields digest rfl rfl input input'

/-- All calls of one dynamic tool have the same key. -/
theorem idempotencyKey_dynamic (name : String) (inputSchema input input' : Obj) :
    idempotencyKey digest (mcpDynamicTool name inputSchema) input =
      idempotencyKey digest (mcpDynamicTool name inputSchema) input' :=
  idempotencyKey_of_no_fields digest rfl rfl input input'

end keys
end JAgent
