import JAgent.Value

/-! # Tool contracts

The declarative part of the Tool Layer: side effects, guardrail declarations, retry policy,
per-operation contracts and the rules by which an operation contract overrides its tool
(`resolveOperation`, `effectiveSideEffects`, `effectiveRequiresConfirmation`,
`effectiveIdempotencyKeyFields`), the role of an input field (`fieldRole`) and the registry. -/

namespace JAgent

inductive SideEffect where
  | write
  | delete
  | external
deriving DecidableEq, Repr

def SideEffect.value : SideEffect → String
  | .write => "write"
  | .delete => "delete"
  | .external => "external"

/-- Data-flow role of a tool input field. -/
inductive FieldRole where
  | data
  | authority
deriving DecidableEq, Repr

/-- A field is AUTHORITY unless its schema property declares `x-role: data`. -/
def fieldRole (inputSchema : Obj) (field : String) : FieldRole :=
  match inputSchema.get? "properties" with
  | some (.obj props) => match Obj.get? props field with
    | some (.obj prop) => if Obj.get? prop "x-role" = some (.str "data") then .data else .authority
    | _ => .authority
  | _ => .authority

inductive IndicatorOp where
  | eq | ne | lt | lte | gt | gte | isIn
deriving DecidableEq, Repr

/-- How a tool's output is judged semantically successful. -/
structure SuccessIndicator where
  field : String
  op : IndicatorOp
  value : Value
deriving DecidableEq

inductive ScopeKind where
  | path | domain | command
deriving DecidableEq, Repr

structure ToolScopeTarget where
  kind : ScopeKind
  inputField : String
  configKey : String := ""
deriving DecidableEq

structure DependencyConstraint where
  eventType : String
  payloadFilter : Obj := []
  message : String := ""
deriving DecidableEq

structure Guardrail where
  guardrailType : String
  config : Obj := []
deriving DecidableEq

structure RetryPolicy where
  maxRetries : ℤ := 3
  backoffBaseMs : ℤ := 1000
  retryableErrors : List String := []
deriving DecidableEq

/-- Per-operation tool contract. -/
structure OperationContract where
  operation : String := ""
  inputSchema : Obj := []
  outputSchema : Obj := []
  sideEffects : List SideEffect := []
  requiresConfirmation : Bool := false
  idempotencyKeyFields : Option (List String) := none
  probeAllowed : Bool := false
  requiredInput : List String := []
deriving DecidableEq

structure ToolDefinition where
  name : String
  inputSchema : Obj := []
  outputSchema : Obj := []
  sideEffects : List SideEffect
  requiresConfirmation : Bool := false
  idempotencyKeyFields : Option (List String) := none
  retryPolicy : RetryPolicy := {}
  timeoutMs : ℤ := 30000
  guardrails : List Guardrail := []
  dependsOn : List DependencyConstraint := []
  dangerousWith : List String := []
  maxParallel : ℤ := 10
  successIndicator : Option SuccessIndicator := none
  operations : List OperationContract := []
  operationKey : String := "operation"
  defaultOperation : Option String := none
  scopeTargets : List ToolScopeTarget := []
deriving DecidableEq

namespace ToolDefinition
variable (td : ToolDefinition) (input : Obj)

/-- The operation contract an input selects: the discriminant value when there is one, the
default operation when it is absent. -/
def resolveOperation : Option OperationContract :=
  if td.operations.isEmpty then none
  else match input.get? td.operationKey with
    | some .null | none => match td.defaultOperation with
      | some d => td.operations.find? (fun op => op.operation = d)
      | none => none
    | some value => td.operations.find? (fun op => Value.str op.operation = value)

/-- The matching operation's side effects (also when empty), else the tool's. -/
def effectiveSideEffects : List SideEffect :=
  match td.resolveOperation input with
  | some op => op.sideEffects
  | none => td.sideEffects

def effectiveRequiresConfirmation : Bool :=
  match td.resolveOperation input with
  | some op => op.requiresConfirmation
  | none => td.requiresConfirmation

/-- The operation's key fields when it declares some, else the tool's. -/
def effectiveIdempotencyKeyFields : Option (List String) :=
  match td.resolveOperation input with
  | some op => op.idempotencyKeyFields.or td.idempotencyKeyFields
  | none => td.idempotencyKeyFields

/-- A `$ref` may flow into a field only when it is `x-role: data`. -/
def refAllowed (field : String) : Bool := fieldRole td.inputSchema field = .data

end ToolDefinition

/-- The canonical "tool does not exist" message. -/
def unknownToolMessage (name : String) : String := "unknown tool '" ++ name ++ "'"

/-- The registry: tool definitions by name.  Every registered definition has an
implementation under the same name. -/
structure Registry where
  tools : Lib.Dict String ToolDefinition

namespace Registry

def getToolDef (r : Registry) (name : String) : Option ToolDefinition := r.tools.get? name

/-- The definition, or the canonical message. -/
def toolDefOrError (r : Registry) (name : String) : Except String ToolDefinition :=
  match r.getToolDef name with
  | some td => .ok td
  | none => .error (unknownToolMessage name)

/-- A registry holding the given definitions under their own names. -/
def ofDefs (tds : List ToolDefinition) : Registry := ⟨.ofPairs (tds.map fun td => (td.name, td))⟩

end Registry
end JAgent
