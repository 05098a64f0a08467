import JAgent.Models.Events
import JAgent.Execution.Local
import JAgent.Tools.FileOp
import JAgent.Tools.Runtime

/-! # Guardrails

The checks that stand before a tool call: the input schema, the workspace's tool whitelist, the
declared prerequisites and the guardrails the tool attaches, in this order, up to the first one
that fails.

JSON-schema validation is a parameter, and so are the guardrails that are looked up in the
registry by name; `destructiveCheck` and `scopeCheck` are the ones `file_op` attaches. -/

namespace JAgent

structure GuardrailResult where
  passed : Bool
  guardrailId : String
  reason : String
  triggersConfirmation : Bool := false
deriving DecidableEq

/-- A guardrail of the registry: it sees the tool, the input, its configuration, the log and
the backend's files. -/
abbrev GuardrailCheck (W : Type) :=
  ToolDefinition → Obj → Obj → Log → W → Except Raised GuardrailResult

/-- What the guardrail runner is configured with. -/
structure GuardrailRunner (W : Type) where
  /-- The message `jsonschema.validate(instance, schema)` raises with, if it raises. -/
  schemaError : Obj → Value → Option String
  /-- `DependencyGuardrail.check` for the declared prerequisites of a tool. -/
  dependencyCheck : ToolDefinition → Obj → Log → GuardrailResult
  /-- The guardrails by their type. -/
  registry : String → Option (GuardrailCheck W)

/-- `SchemaGuardrail.check`. -/
def schemaCheck (schemaError : Obj → Value → Option String) (td : ToolDefinition) (input : Obj) :
    GuardrailResult :=
  match schemaError td.inputSchema (.obj input) with
  | none => ⟨true, "schema", "", false⟩
  | some message => ⟨false, "schema", message, false⟩

/-- `ToolWhitelistGuardrail.is_allowed`: the name itself or a `prefix*` entry. -/
def isAllowed (allowedTools : List String) (toolName : String) : Bool :=
  allowedTools.contains toolName || allowedTools.any fun entry =>
    entry.toList.getLast? = some '*' && entry.toList.dropLast.isPrefixOf toolName.toList

/-- `ToolWhitelistGuardrail.check`; without a list every tool is allowed. -/
def whitelistCheck (allowedTools : Option (List String)) (td : ToolDefinition) : GuardrailResult :=
  match allowedTools with
  | some allowed =>
    if isAllowed allowed td.name then ⟨true, "tool_whitelist", "", false⟩
    else ⟨false, "tool_whitelist", "Tool '" ++ td.name ++ "' not allowed in this workspace", false⟩
  | none => ⟨true, "tool_whitelist", "", false⟩

/-- `list(config.get("destructive_operations", ["delete"]))`. -/
def destructiveOperations (config : Obj) : Except Raised (List Value) :=
  match config.get? "destructive_operations" with
  | none => .ok [.str "delete"]
  | some (.arr xs) => .ok xs
  | some (.str s) => .ok (s.toList.map fun ch => .str (String.singleton ch))
  | some (.obj o) => .ok (o.map fun entry => .str entry.1)
  | some v => .error (.error "TypeError" ("'" ++ v.typeName ++ "' object is not iterable"))

/-- `DestructiveOpGuardrail.check`. -/
def destructiveCheck {W : Type} [Py] : GuardrailCheck W := fun td input config _ _ =>
  match destructiveOperations config with
  | .error e => .error e
  | .ok operations =>
    let byContract := match td.resolveOperation input with
      | some op => op.sideEffects.contains .delete || op.requiresConfirmation
      | none => false
    if byContract then
      .ok ⟨true, "destructive_op", "Destructive operation requires confirmation", true⟩
    else
      let value := (Obj.get? input td.operationKey).getD .null
      if operations.any fun v => v.pyEq value then
        .ok ⟨true, "destructive_op",
          "Destructive operation '" ++ pyStr value ++ "' requires confirmation", true⟩
      else .ok ⟨true, "destructive_op", "", false⟩

/-- The configuration key of a target's whitelist. -/
def ToolScopeTarget.whitelistKey (target : ToolScopeTarget) : String :=
  if target.configKey ≠ "" then target.configKey
  else match target.kind with
    | .path => "allowed_directories"
    | .domain => "allowed_domains"
    | .command => "allowed_commands"

/-- The entries of a whitelist; an absent or empty one restricts nothing. -/
def whitelistOf (config : Obj) (target : ToolScopeTarget) : List Value :=
  match config.get? target.whitelistKey with
  | some (.arr xs) => xs
  | _ => []

/-- `ScopeGuardrail.check`; `refusal` is the reason a target is refused by a non-empty
whitelist, if it is. -/
def scopeRules (refusal : ScopeKind → Value → List Value → Option String) (td : ToolDefinition)
    (input config : Obj) : GuardrailResult :=
  let refused := td.scopeTargets.findSome? fun target =>
    let allowed := whitelistOf config target
    let raw := (Obj.get? input target.inputField).getD .null
    if allowed.isEmpty || (target.kind = .path && raw = .null) then none
    else refusal target.kind raw allowed
  match refused with
  | some reason => ⟨false, "scope", reason, false⟩
  | none => ⟨true, "scope", "", false⟩

/-- `ScopeGuardrail.check_async`: every path target has to resolve inside the workspace, then
the whitelists are checked. -/
def scopeCheck {W : Type} [Py] (resolve : String → Except Raised String)
    (refusal : ScopeKind → Value → List Value → Option String) : GuardrailCheck W :=
  fun td input config _ _ =>
    let rec go : List ToolScopeTarget → Except Raised GuardrailResult
      | [] => .ok (scopeRules refusal td input config)
      | target :: rest =>
        if target.kind ≠ .path then go rest
        else match Obj.get? input target.inputField with
          | none | some .null => go rest
          | some raw => match resolve (pyStr raw) with
            | .ok _ => go rest
            | .error e =>
              if e.kind = "PermissionError" then .ok ⟨false, "scope", e.text, false⟩ else .error e
    go td.scopeTargets

/-- `validate_registration_safety`: the violations for which a tool is not registered. -/
def validateRegistrationSafety (td : ToolDefinition) : List String :=
  let declared := td.guardrails.map Guardrail.guardrailType
  let hasDelete := td.sideEffects.contains .delete ||
    td.operations.any fun op => op.sideEffects.contains .delete
  (if hasDelete && !declared.contains "destructive" then
    ["Tool '" ++ td.name ++ "' declares SideEffect.DELETE (tool-level or on an operation) " ++
      "but does not attach the 'destructive' guardrail: " ++
      "deletions would execute without human confirmation. " ++
      "Add Guardrail(guardrail_type='destructive') to the tool's guardrails list."]
  else []) ++
  (if !td.scopeTargets.isEmpty && !declared.contains "scope" then
    ["Tool '" ++ td.name ++ "' declares scope_targets but does not attach the " ++
      "'scope' guardrail: the whitelist would have no enforcer. " ++
      "Add Guardrail(guardrail_type='scope') to the tool's guardrails list."]
  else []) ++
  (if (td.scopeTargets.any fun target => target.kind = .domain) && !declared.contains "egress" then
    ["Tool '" ++ td.name ++ "' declares a domain scope_target but does not attach the " ++
      "'egress' guardrail: loopback/private/metadata addresses would remain " ++
      "reachable. Add Guardrail(guardrail_type='egress') to the tool's guardrails list."]
  else [])

namespace GuardrailRunner
variable {W : Type} (g : GuardrailRunner W) (td : ToolDefinition) (input : Obj) (log : Log) (w : W)

/-- The attached guardrails, up to the first that fails; `done` are the results so far. -/
def runAttached : List Guardrail → List GuardrailResult → Except Raised (List GuardrailResult)
  | [], done => .ok done
  | gr :: rest, done => match g.registry gr.guardrailType with
    | none => .ok (done ++ [⟨false, gr.guardrailType,
        "Unknown guardrail type: " ++ gr.guardrailType, false⟩])
    | some check => match check td input gr.config log w with
      | .error e => .error e
      | .ok r => if r.passed then runAttached rest (done ++ [r]) else .ok (done ++ [r])

/-- `GuardrailRunner.run`. -/
def run (allowedTools : Option (List String)) : Except Raised (List GuardrailResult) :=
  let schema := schemaCheck g.schemaError td input
  if !schema.passed then .ok [schema]
  else
    let whitelist := whitelistCheck allowedTools td
    if !whitelist.passed then .ok [schema, whitelist]
    else if td.dependsOn.isEmpty then g.runAttached td input log w td.guardrails [schema]
    else
      let dep := g.dependencyCheck td input log
      if !dep.passed then .ok [schema, dep]
      else g.runAttached td input log w td.guardrails [schema, dep]

end GuardrailRunner
end JAgent
