import JAgent.Models.Tools
import JAgent.Execution.Local

/-! # The file tool

The declaration of `file_op`: its schemas, its operations with their side effects, and the
fields its idempotency key is computed from; and its calls (`FileCall`), each of which is one
operation of the backend. -/

namespace JAgent

/-- `input_schema` of `file_op`; only `content` may carry data of another step. -/
def fileOpInputSchema : Obj :=
  [("type", .str "object"),
    ("properties", .obj
      [("operation", .obj
        [("type", .str "string"),
          ("enum", .arr [.str "read", .str "write", .str "append", .str "delete", .str "list"]),
          ("description", .str "File operation to perform")]),
        ("path", .obj
          [("type", .str "string"), ("description", .str "File path relative to sandbox root"),
            ("x-role", .str "authority")]),
        ("content", .obj
          [("type", .str "string"),
            ("description", .str "Content to write or append (required for write/append)"),
            ("x-role", .str "data")])]),
    ("required", .arr [.str "operation", .str "path"])]

/-- `output_schema` of `file_op`. -/
def fileOpOutputSchema : Obj :=
  [("type", .str "object"),
    ("properties", .obj
      [("success", .obj [("type", .str "boolean")]), ("path", .obj [("type", .str "string")]),
        ("content", .obj [("type", .str "string")]), ("size", .obj [("type", .str "integer")]),
        ("error", .obj [("type", .str "string")])])]

/-- The contract of one operation; it inherits the output schema of the tool. -/
def fileOperation (name : String) (sideEffects : List SideEffect) (probeAllowed : Bool) :
    OperationContract :=
  { operation := name, outputSchema := fileOpOutputSchema, sideEffects := sideEffects,
    probeAllowed := probeAllowed }

/-- The definition of `file_op`. -/
def fileOp : ToolDefinition :=
  { name := "file_op"
    inputSchema := fileOpInputSchema
    outputSchema := fileOpOutputSchema
    sideEffects := [.write, .delete]
    idempotencyKeyFields := some ["operation", "path", "content"]
    guardrails := [{ guardrailType := "destructive" }, { guardrailType := "scope" }]
    timeoutMs := 30000
    successIndicator := some { field := "success", op := .eq, value := .bool true }
    operations := [fileOperation "read" [] true, fileOperation "list" [] true,
      fileOperation "write" [.write] false, fileOperation "append" [.write] false,
      fileOperation "delete" [.delete] false]
    operationKey := "operation"
    scopeTargets := [{ kind := .path, inputField := "path" }] }

/-! ### Calls -/

inductive FileOperation where
  | read | write | append | delete | list
deriving DecidableEq, Repr

def FileOperation.name : FileOperation → String
  | .read => "read"
  | .write => "write"
  | .append => "append"
  | .delete => "delete"
  | .list => "list"

/-- A well-formed input of `file_op`. -/
structure FileCall where
  operation : FileOperation
  path : String
  content : Option String := none
deriving DecidableEq

namespace FileCall
variable (c : FileCall)

/-- The input as an object. -/
def input : Obj :=
  [("operation", .str c.operation.name), ("path", .str c.path)] ++
    match c.content with
    | some t => [("content", .str t)]
    | none => []

/-- `input.get("content") or ""`. -/
def text : String := c.content.getD ""

/-- `FileOpTool.run`: the operation of the backend that the input names. -/
def run {W : Type} (b : ExecutionBackend W) (w : W) : Answer × W :=
  match c.operation with
  | .read => b.read c.path w
  | .write => b.write c.path c.text w
  | .append => b.append c.path c.text w
  | .delete => b.delete c.path w
  | .list => b.list c.path w

theorem resolveOperation_input : fileOp.resolveOperation c.input =
    fileOp.operations.find? fun op => op.operation = c.operation.name := by
  unfold ToolDefinition.resolveOperation input
  cases c.operation <;> cases c.content <;> rfl

/-- The operation contract of a call inherits the key fields of the tool. -/
theorem effectiveIdempotencyKeyFields_input :
    fileOp.effectiveIdempotencyKeyFields c.input = some ["operation", "path", "content"] := by
  unfold ToolDefinition.effectiveIdempotencyKeyFields
  rw [resolveOperation_input]
  cases c.operation <;> rfl

theorem effectiveRequiresConfirmation_input :
    fileOp.effectiveRequiresConfirmation c.input = false := by
  unfold ToolDefinition.effectiveRequiresConfirmation
  rw [resolveOperation_input]
  cases c.operation <;> rfl

end FileCall
end JAgent
