import JAgent.Core.Recovery
import JAgent.Models.Events
import JAgent.Execution.Local

/-! # What the executor does around a tool

The parts of the Tool Layer that `ToolExecutor.execute` puts together: the idempotency key of a
call, the semantic evaluation of an output, the retry decision and the offloading of large
outputs.  SHA-256 is the parameter `digest`. -/

namespace JAgent

/-! ### The idempotency key -/

section key
variable [Py] (digest : String → String)

/-- The part of an input that the key fields select. -/
def keySubset (fields : List String) (input : Obj) : Obj :=
  (Lib.Dict.ofPairs (fields.filterMap fun k => (input.get? k).map fun v => (k, v))).items

/-- The text that is hashed. -/
def keySeed (name : String) (fields : List String) (input : Obj) : String :=
  name ++ ":" ++ dumps { ensureAscii := false, itemSep := ",", keySep := ":" }
    (.obj (keySubset fields input))

/-- `IdempotencyKeyGenerator.compute`; `none` when the tool has no key fields at all. -/
def computeKey (td : ToolDefinition) (input : Obj) (keyFields : Option (List String)) :
    Option String :=
  (keyFields.or td.idempotencyKeyFields).map fun fields => digest (keySeed td.name fields input)

/-- The key `execute` computes for a call. -/
def idempotencyKey (td : ToolDefinition) (input : Obj) : Option String :=
  computeKey digest td input (td.effectiveIdempotencyKeyFields input)

/-- The key a confirmation is stored under. -/
def confirmKey (td : ToolDefinition) (toolName : String) (input : Obj) : String :=
  match idempotencyKey digest td input with
  | some k => if k = "" then "_noik_" ++ toolName else k
  | none => "_noik_" ++ toolName

end key

/-! ### Semantic evaluation -/

/-- `type(v).__name__`. -/
def Value.typeName : Value → String
  | .null => "NoneType"
  | .bool _ => "bool"
  | .int _ => "int"
  | .float _ => "float"
  | .str _ => "str"
  | .arr _ => "list"
  | .obj _ => "dict"

mutual
/-- How two values compare; `none` where the comparison raises. -/
def Value.compare? : Value → Value → Option Ordering
  | .str a, .str b => some (if a < b then .lt else if a = b then .eq else .gt)
  | .arr a, .arr b => Value.compareList? a b
  | v, w => match v.num?, w.num? with
    | some x, some y => some (if x < y then .lt else if x = y then .eq else .gt)
    | _, _ => none
def Value.compareList? : List Value → List Value → Option Ordering
  | [], [] => some .eq
  | [], _ :: _ => some .lt
  | _ :: _, [] => some .gt
  | v :: vs, w :: ws => if v.pyEq w then Value.compareList? vs ws else Value.compare? v w
end

/-- `actual in value`. -/
def containedIn (actual : Value) : Value → Except Raised Bool
  | .arr xs => .ok (xs.any fun x => x.pyEq actual)
  | .obj o => match actual with
    | .arr _ | .obj _ => .error (.error "TypeError" ("unhashable type: '" ++ actual.typeName ++ "'"))
    | _ => .ok (o.any fun kv => actual = .str kv.1)
  | .str s => match actual with
    | .str t => .ok (s.toList.tails.any fun u => t.toList.isPrefixOf u)
    | _ => .error (.error "TypeError"
        ("'in <string>' requires string as left operand, not " ++ actual.typeName))
  | v => .error (.error "TypeError" ("argument of type '" ++ v.typeName ++ "' is not iterable"))

/-- An ordering operator of the host language. -/
def ordered (symbol : String) (actual value : Value) (test : Ordering → Bool) : Except Raised Bool :=
  match actual.compare? value with
  | some o => .ok (test o)
  | none => .error (.error "TypeError" ("'" ++ symbol ++ "' not supported between instances of '" ++
      actual.typeName ++ "' and '" ++ value.typeName ++ "'"))

def IndicatorOp.name : IndicatorOp → String
  | .eq => "eq" | .ne => "ne" | .lt => "lt" | .lte => "lte" | .gt => "gt" | .gte => "gte"
  | .isIn => "in"

/-- The test of a success indicator. -/
def IndicatorOp.holds (op : IndicatorOp) (actual value : Value) : Except Raised Bool :=
  match op with
  | .eq => .ok (actual.pyEq value)
  | .ne => .ok (!actual.pyEq value)
  | .lt => ordered "<" actual value fun o => o = .lt
  | .lte => ordered "<=" actual value fun o => o ≠ .gt
  | .gt => ordered ">" actual value fun o => o = .gt
  | .gte => ordered ">=" actual value fun o => o ≠ .lt
  | .isIn => containedIn actual value

/-- The first truthy value of an object under these fields. -/
def firstTruthy (o : Obj) (fields : List String) : Option Value :=
  fields.findSome? fun k => match o.get? k with
    | some v => if v.truthy then some v else none
    | none => none

/-- `SemanticEvaluator.evaluate`: the error of an unsuccessful output, `none` for a success. -/
def evaluate [Py] (td : ToolDefinition) (output : Value) : Except Raised (Option String) :=
  match td.successIndicator, output with
  | some ind, .obj o => match Obj.get? o ind.field with
    | none | some .null => .ok none
    | some actual => match ind.op.holds actual ind.value with
      | .error e => .error e
      | .ok true => .ok none
      | .ok false => .ok (some (match firstTruthy o ["error", "message"] with
        | some v => pyStr v
        | none => ind.field ++ "=" ++ pyStr actual ++ " (op=" ++ ind.op.name ++ ", value=" ++
            pyStr ind.value ++ ")"))
  | _, _ => .ok none

/-! ### Retries -/

/-- `needle in text`. -/
def hasInfix (needle text : String) : Bool :=
  text.toList.tails.any fun u => needle.toList.isPrefixOf u

/-- `RetryRunner.should_retry`. -/
def shouldRetry (attempt : ℕ) (error : String) (policy : RetryPolicy) : Bool :=
  if policy.maxRetries < attempt then false
  else policy.retryableErrors.isEmpty || policy.retryableErrors.any fun c => hasInfix c error

/-- `_semantic_retry_reason`: why a returned output is to be retried. -/
def semanticRetryReason [Py] (td : ToolDefinition) (toolName : String) (input : Obj)
    (output : Value) : Except Raised (Option String) :=
  match evaluate td output with
  | .error e => .error e
  | .ok none => .ok none
  | .ok (some err) =>
    if err = "" then .ok none
    else if classifyFailureTier (some err) false ≠ .toolRetry then .ok none
    else if !td.retryPolicy.retryableErrors.isEmpty &&
        !(td.retryPolicy.retryableErrors.any fun c => hasInfix c err) then .ok none
    else if !isReadOnlyAction toolName input [] then .ok none
    else .ok (some err)

/-- The exception is one the policy names. -/
def retryableError (policy : RetryPolicy) (e : Raised) : Bool :=
  policy.retryableErrors.any fun c => hasInfix c e.text || hasInfix c e.kind

/-! ### Offloading large outputs -/

/-- `_serialize`. -/
def serialize [Py] (output : Value) : String := dumps { ensureAscii := false } output

/-- `summarize_output`. -/
def summarizeOutput [Py] (output : Value) (maxChars : ℕ) : String :=
  let text := (serialize output).toList.map fun c => if c = '\n' then ' ' else c
  if text.length ≤ maxChars then String.ofList text
  else String.ofList (text.take maxChars) ++ "...(truncated)"

/-- The file a large output is stored in. -/
def blobPath [Py] (digest : String → String) (output : Value) : String :=
  ".harness_outputs/" ++ digest (serialize output) ++ ".json"

/-- The record of a stored output. -/
def storedBlob [Py] (digest : String → String) (inlineMax : ℕ) (output : Value)
    (toolCallId toolName : String) (stepId workspaceId : Option String) : OutputBlobStoredPayload :=
  { toolCallId, toolName, stepId, workspaceId
    ref := digest (serialize output) ++ ".json"
    sha256 := digest (serialize output)
    bytes := (serialize output).toByteArray.size
    summary := summarizeOutput output (min inlineMax 120) }

/-- `build_ref_placeholder`. -/
def buildRefPlaceholder (blob : OutputBlobStoredPayload) : Value :=
  .obj [("truncated", .bool blob.truncated), ("ref", .str blob.ref), ("sha256", .str blob.sha256),
    ("bytes", .int blob.bytes), ("summary", .str (String.ofList (blob.summary.toList.take 300))),
    ("note", .str "full output offloaded to blob; use fetch_output(ref) to retrieve")]

/-- `_structurally_usable`. -/
def structurallyUsable : Value → Bool
  | .obj _ | .arr _ => true
  | _ => false

end JAgent
