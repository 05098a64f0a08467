import JAgent.Lib.Dict
import JAgent.Lib.System
import JAgent.Tools.Guardrails
import JAgent.Tools.Runtime

/-! # Skills and shared tool objects

Executions of several runs share one registry of tool objects.  An execution puts the backend it was
given into the context variable `current_backend`; the invoker hands the context's backend to the tool
object, which keeps the last one it was given (`BaseTool.invoke`).  `file_op` and `fetch_output` act on
the backend their object holds.

A Skill is a tool whose body calls other tools.  With a tool layer these calls are executions of
their own, with neither a workspace scope nor a backend; without one, or for a tool that has no
definition, the function is called as it is.

A frame is one execution, or one plain call from inside a Skill, in flight.  `layerStep` interleaves the
frames of any number of runs. -/

namespace JAgent
open Lib

/-! ### Tools -/

/-- What `with_tool_layer` or `build_fn` gives a Skill: the names it has functions for and, when an
executor is wired, the names that have a definition. -/
structure SkillLayer where
  toolFns : List String
  toolDefs : Option (List String) := none
deriving DecidableEq

/-- The definition of `fetch_output`. -/
def fetchOutput : ToolDefinition :=
  { name := "fetch_output"
    inputSchema :=
      [("type", .str "object"),
        ("properties", .obj
          [("operation", .obj [("type", .str "string"), ("enum", .arr [.str "fetch"])]),
            ("ref", .obj
              [("type", .str "string"),
                ("description", .str "Content-addressed blob ref, e.g. '<sha256>.json'"),
                ("x-role", .str "authority")])]),
        ("required", .arr [.str "operation", .str "ref"])]
    outputSchema := []
    sideEffects := []
    idempotencyKeyFields := some ["ref"]
    guardrails := []
    timeoutMs := 15000
    operations := [{ operation := "fetch", sideEffects := [], probeAllowed := true
                     idempotencyKeyFields := some ["ref"] }]
    operationKey := "operation" }

/-- A registered tool object. -/
inductive Tool where
  | fileOp
  | fetchOutput
  | skill (td : ToolDefinition) (layer : SkillLayer)
  | other (td : ToolDefinition)

def Tool.td : Tool → ToolDefinition
  | .fileOp => JAgent.fileOp
  | .fetchOutput => JAgent.fetchOutput
  | .skill td _ | .other td => td

def Tool.name (t : Tool) : String := t.td.name

/-- `ToolRegistry`. -/
abbrev ToolRegistry := List Tool

/-- The tool that is registered under a name. -/
def ToolRegistry.get? (reg : ToolRegistry) (name : String) : Option Tool :=
  List.find? (fun t => t.name = name) reg

theorem ToolRegistry.name_get? {reg : ToolRegistry} {name : String} {t : Tool}
    (h : reg.get? name = some t) : t.name = name := by
  simpa using List.find?_some h

/-! ### What an invocation comes to -/

/-- An invocation of a tool that works on a backend: it raises, answers by itself, or calls one
operation of a backend. -/
inductive ToolAct (B : Type) where
  | raises (e : Raised)
  | answers (v : Value)
  | acts (b : B) (operation : FileOperation) (path content : Value)

/-- It raises, or reports no success. -/
def ToolAct.failed {B : Type} : ToolAct B → Bool
  | .raises _ => true
  | .answers (.obj o) => !((Obj.get? o "success").getD .null).truthy
  | .answers _ | .acts .. => false

/-- `is_valid_blob_ref`; `$` also matches before a line break at the end. -/
def isValidBlobRef (ref : String) : Bool :=
  let body := if ref.toList.getLast? = some '\n' then ref.toList.dropLast else ref.toList
  body.length = 69 && (body.take 64).all (fun c => c.isDigit || ('a' ≤ c && c ≤ 'f')) &&
    body.drop 64 = ".json".toList

/-- `KeyError` for an operation the tool does not have, `TypeError` for one that cannot be a key. -/
def unknownOperation [Py] (value : Value) (tool : String) : Raised :=
  match value with
  | .arr _ | .obj _ => .error "TypeError" ("unhashable type: '" ++ value.typeName ++ "'")
  | _ => .error "KeyError" (reprStr ("Unknown operation '" ++ pyStr value ++ "' for tool '" ++ tool ++ "'"))

section Run
variable {B : Type} (backend : Option B) (input : Obj)

/-- The operation of `file_op` that a value names. -/
def fileOperationOf : Value → Option FileOperation
  | .str s => [FileOperation.read, .list, .write, .append, .delete].find? fun op => op.name = s
  | _ => none

/-- The content an operation passes on: `input.get("content") or ""` where one is written. -/
def fileContent : FileOperation → Value
  | .write | .append =>
      let v := (Obj.get? input "content").getD .null
      if v.truthy then v else .str ""
  | .read | .list | .delete => .null

/-- `FileOpTool.run`. -/
def FileOpTool.run [Py] : ToolAct B :=
  match backend with
  | none => .raises (.error "RuntimeError" "Execution backend is required for file_op")
  | some b =>
    let value := (Obj.get? input "operation").getD .null
    match fileOperationOf value with
    | none => .raises (unknownOperation value "file_op")
    | some op => match Obj.get? input "path" with
        | none => .raises (.error "KeyError" (reprStr "path"))
        | some path => .acts b op path (fileContent input op)

/-- `str(input.get("ref") or "")`. -/
def refOf [Py] : String :=
  let v := (Obj.get? input "ref").getD .null
  if v.truthy then pyStr v else ""

/-- `input.get("operation") or "fetch"`. -/
def fetchOperationOf : Value :=
  let v := (Obj.get? input "operation").getD .null
  if v.truthy then v else .str "fetch"

/-- `FetchOutputTool.run`. -/
def FetchOutputTool.run [Py] : ToolAct B :=
  match backend with
  | none => .raises (.error "RuntimeError" "Execution backend is required for fetch_output")
  | some b =>
    if fetchOperationOf input ≠ .str "fetch" then
      .raises (unknownOperation (fetchOperationOf input) "fetch_output")
    else if isValidBlobRef (refOf input) then
      .acts b .read (.str (".harness_outputs/" ++ refOf input)) .null
    else .answers (.obj [("success", .bool false), ("error", .str ("invalid output ref: " ++
      reprStr (refOf input) ++ " (expected <64-hex>.json)"))])

/-- What an invocation comes to when the tool object holds a backend; the other tools do not use
it. -/
def Tool.run [Py] : Tool → Option (ToolAct B)
  | .fileOp => some (FileOpTool.run backend input)
  | .fetchOutput => some (FetchOutputTool.run backend input)
  | .skill .. | .other _ => none

end Run

/-! ### Frames -/

/-- How far a frame has come. -/
inductive FrameStage where
  /-- Before the guardrails. -/
  | checking
  /-- The tool function is called next. -/
  | ready
  /-- The tool function has been called. -/
  | inside
deriving DecidableEq

/-- An execution, or a plain call from inside a Skill.  `scope` is the `allowed_tools` and `context` the
backend that it works with; `allowed` and `passed` are those of the execution of the run that it
belongs to. -/
structure Frame (B : Type) where
  runId : String
  tool : Tool
  input : Obj
  scope : Option (List String)
  context : Option B
  stage : FrameStage
  allowed : Option (List String)
  passed : Option B

/-- A record of one invocation of a tool function. -/
structure Invocation (B : Type) where
  name : String
  allowed : Option (List String)
  passed : Option B
  act : Option (ToolAct B)

/-- The frames in flight, the backends the tool objects hold, and the invocations so far. -/
structure ToolLayer (B : Type) where
  frames : List (Frame B) := []
  held : Dict String B := .empty
  invoked : List (Invocation B) := []

inductive LayerMove (B W : Type) where
  /-- A run executes a tool. -/
  | execute (runId name : String) (input : Obj) (allowed : Option (List String)) (backend : Option B)
  /-- The guardrails let a frame pass, nothing is cached and nothing is left to confirm. -/
  | pass (i : ℕ) (g : GuardrailRunner W) (log : Log) (w : W)
  /-- The tool function is called, for the first time or again. -/
  | invoke (i : ℕ)
  /-- The body of a Skill calls a tool. -/
  | call (i : ℕ) (name : String) (input : Obj)
  /-- A frame is left, by a result or an exception. -/
  | leave (i : ℕ)

namespace ToolLayer
variable {B : Type} (s : ToolLayer B)

/-- The backend the tool object of a frame holds once `invoke` has handed it the context's. -/
def backendOf (f : Frame B) : Option B := f.context.or (s.held.get? f.tool.name)

/-- `BaseTool.invoke` in the context of a frame. -/
def invoke [Py] (f : Frame B) : Invocation B :=
  { name := f.tool.name, allowed := f.allowed, passed := f.passed
    act := f.tool.run (s.backendOf f) f.input }

/-- What the tool objects hold after an invocation. -/
def hold (f : Frame B) : Dict String B :=
  match f.context with
  | some b => s.held.set f.tool.name b
  | none => s.held

/-- A call from inside a Skill: a nested execution when the Skill has an executor, a definition of the
tool and a run, else a call of the plain function in the Skill's own context. -/
def nested (f : Frame B) (layer : SkillLayer) (tool : Tool) (input : Obj) : Frame B :=
  if layer.toolDefs.any (·.contains tool.name) && f.runId ≠ "" then
    { f with tool, input, scope := none, context := none, stage := .checking }
  else { f with tool, input, stage := .ready }

/-- The frame that a call from inside a frame opens; only Skills call. -/
def opened (reg : ToolRegistry) (f : Frame B) (name : String) (input : Obj) : Option (Frame B) :=
  match f.tool with
  | .skill _ layer =>
      if layer.toolFns.contains name && f.stage = .inside then
        (reg.get? name).map fun t => nested f layer t input
      else none
  | .fileOp | .fetchOutput | .other _ => none

end ToolLayer

/-- The guardrails of an execution raise nothing and refuse nothing. -/
def guardsPass {W : Type} (g : GuardrailRunner W) (td : ToolDefinition) (input : Obj) (log : Log) (w : W)
    (scope : Option (List String)) : Bool :=
  match g.run td input log w scope with
  | .ok results => results.all (·.passed)
  | .error _ => false

/-- One move of the tool layer. -/
def layerStep {B W : Type} [Py] (reg : ToolRegistry) (s : ToolLayer B) :
    LayerMove B W → Option (ToolLayer B)
  | .execute runId name input allowed backend => (reg.get? name).map fun tool =>
      { s with frames := s.frames ++ [{ runId, tool, input, scope := allowed, context := backend
                                        stage := .checking, allowed, passed := backend }] }
  | .pass i g log w => (s.frames[i]?).bind fun f =>
      if f.stage = .checking && guardsPass g f.tool.td f.input log w f.scope then
        some { s with frames := s.frames.set i { f with stage := .ready } }
      else none
  | .invoke i => (s.frames[i]?).bind fun f =>
      if f.stage = .checking then none
      else some { frames := s.frames.set i { f with stage := .inside }, held := s.hold f
                  invoked := s.invoked ++ [s.invoke f] }
  | .call i name input => (s.frames[i]?).bind fun f =>
      (ToolLayer.opened reg f name input).map fun f' => { s with frames := s.frames ++ [f'] }
  | .leave i => some { s with frames := s.frames.eraseIdx i }

end JAgent
