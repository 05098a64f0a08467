import JAgent.Tools.HttpRequest

/-! # Declarative tools

A tool is a class whose decorated members are the handlers of its operations.  `__init_subclass__`
collects two tables from the class body, the contracts and the handlers, both under the name of the
operation; `to_definition` makes the `ToolDefinition` of the trusted layer from the first, and `run`
dispatches on the second.

The operation of an input is thus found twice.  `resolve_operation` falls back on the default operation
of the tool when the input names none, `run` does not: such an input has a contract, and no handler runs.
`agrees_iff` says that this is the only difference. -/

namespace JAgent

/-- A member of a class body.  `@operation` attaches a contract to it. -/
structure ClassMember (A : Type) where
  name : String
  contract : Option OperationContract := none
  call : Obj → A

/-- A subclass of `BaseTool`: the class attributes and the class body in the order of its definition. -/
structure BaseTool (A : Type) where
  name : String := ""
  inputSchema : Obj := []
  outputSchema : Obj := []
  operationKey : String := "operation"
  defaultOperation : Option String := none
  sideEffects : List SideEffect := []
  idempotencyKeyFields : Option (List String) := none
  guardrails : List Guardrail := []
  scopeTargets : List ToolScopeTarget := []
  requiresConfirmation : Bool := false
  timeoutMs : ℤ := 30000
  retryPolicy : RetryPolicy := {}
  successIndicator : Option SuccessIndicator := none
  dangerousWith : List String := []
  maxParallel : ℤ := 10
  dependsOn : List DependencyConstraint := []
  members : List (ClassMember A)

namespace BaseTool
variable {A : Type} (t : BaseTool A)

/-- The decorated members with their contracts. -/
def decorated : List (OperationContract × ClassMember A) :=
  t.members.filterMap fun m => m.contract.map fun contract => (contract, m)

/-- `_operations`. -/
def operations : Lib.Dict String OperationContract :=
  .ofPairs (t.decorated.map fun d => (d.1.operation, d.1))

/-- `_operation_handlers`. -/
def operationHandlers : Lib.Dict String (ClassMember A) :=
  .ofPairs (t.decorated.map fun d => (d.1.operation, d.2))

/-- A contract without an output schema inherits the one of the tool. -/
def inherit (contract : OperationContract) : OperationContract :=
  if contract.outputSchema.isEmpty then { contract with outputSchema := t.outputSchema } else contract

/-- `to_definition`. -/
def toDefinition : ToolDefinition :=
  { name := t.name
    inputSchema := t.inputSchema
    outputSchema := t.outputSchema
    idempotencyKeyFields := t.idempotencyKeyFields
    sideEffects := t.sideEffects
    guardrails := t.guardrails
    timeoutMs := t.timeoutMs
    retryPolicy := t.retryPolicy
    successIndicator := t.successIndicator
    requiresConfirmation := t.requiresConfirmation
    dependsOn := t.dependsOn
    dangerousWith := t.dangerousWith
    maxParallel := t.maxParallel
    operations := t.operations.values.map t.inherit
    operationKey := t.operationKey
    defaultOperation := t.defaultOperation
    scopeTargets := t.scopeTargets }

variable [Py] (input : Obj)

/-- The handler that `run` calls; a name it does not know raises. -/
def dispatch : Except Raised (ClassMember A) :=
  match Obj.get? input t.operationKey with
  | some (.str op) => match t.operationHandlers.get? op with
    | some handler => .ok handler
    | none => .error (unknownOperation (.str op) t.name)
  | value => .error (unknownOperation (value.getD .null) t.name)

/-- `run`. -/
def run : Except Raised A := (t.dispatch input).map fun handler => handler.call input

/-! ### The two tables -/

variable {t input}

omit [Py] in
/-- What is collected under a name. -/
theorem get?_collected {B : Type} (f : OperationContract × ClassMember A → B)
    (ds : List (OperationContract × ClassMember A)) (op : String) :
    (Lib.Dict.ofPairs (ds.map fun d => (d.1.operation, f d))).get? op =
      (ds.reverse.find? fun d => d.1.operation = op).map f := by
  rw [Lib.Dict.get?_ofPairs, ← List.map_reverse]
  induction ds.reverse with
  | nil => rfl
  | cons d ds ih =>
      rw [List.map_cons, Lib.assoc, List.find?_cons, ih]
      by_cases h : d.1.operation = op
      · simp [h]
      · simp [h]

omit [Py] in
/-- **Contracts and handlers are collected together**: under every name stand the contract of a member and
this member. -/
theorem collected_together (op : String) :
    (t.operations.get? op = none ∧ t.operationHandlers.get? op = none) ∨
      ∃ contract handler, contract.operation = op ∧ handler.contract = some contract ∧
        t.operations.get? op = some contract ∧ t.operationHandlers.get? op = some handler := by
  unfold operations operationHandlers
  rw [get?_collected, get?_collected]
  cases hfind : t.decorated.reverse.find? fun d => d.1.operation = op with
  | none => exact .inl ⟨rfl, rfl⟩
  | some d =>
      refine .inr ⟨d.1, d.2, by simpa using List.find?_some hfind, ?_, rfl, rfl⟩
      have hmem : d ∈ t.decorated := List.mem_reverse.mp (List.mem_of_find?_eq_some hfind)
      obtain ⟨m, _, hm⟩ := List.mem_filterMap.mp hmem
      obtain ⟨contract, hcontract, rfl⟩ := Option.map_eq_some_iff.mp hm
      exact hcontract

omit [Py] in
theorem inherit_operation (contract : OperationContract) :
    (t.inherit contract).operation = contract.operation := by
  unfold inherit
  split_ifs <;> rfl

omit [Py] in
/-- The definition lists the contract of a name. -/
theorem find?_operations (op : String) :
    t.toDefinition.operations.find? (fun c => c.operation = op) = (t.operations.get? op).map t.inherit := by
  have hkeys : ∀ kc ∈ t.operations.items, kc.2.operation = kc.1 := by
    intro kc hkc
    rcases t.collected_together kc.1 with ⟨hnone, _⟩ | ⟨contract, _, hop, _, hget, _⟩
    · rw [Lib.Dict.mem_items_iff.mp hkc] at hnone
      cases hnone
    · rw [Lib.Dict.mem_items_iff.mp hkc] at hget
      cases hget
      exact hop
  show ((t.operations.items.map Prod.snd).map t.inherit).find? _ = _
  unfold Lib.Dict.get?
  revert hkeys
  induction t.operations.items with
  | nil =>
      intro _
      rfl
  | cons kc items ih =>
      intro hkeys
      have hkc := hkeys kc List.mem_cons_self
      rw [List.map_cons, List.map_cons, List.find?_cons, inherit_operation, hkc, Lib.assoc]
      by_cases h : kc.1 = op
      · simp [h]
      · simp only [h, decide_false, if_false]
        exact ih fun kc' hmem => hkeys kc' (List.mem_cons_of_mem _ hmem)

/-! ### The two readings of an input -/

/-- `resolve_operation` and `run` find the same operation. -/
def Agrees (t : BaseTool A) (input : Obj) : Prop :=
  match t.toDefinition.resolveOperation input with
  | some op => ∃ handler, t.operationHandlers.get? op.operation = some handler ∧ t.dispatch input = .ok handler
  | none => ∀ handler, t.dispatch input ≠ .ok handler

/-- The input names an operation. -/
def names (t : BaseTool A) (input : Obj) : Bool :=
  (Obj.get? input t.operationKey).any fun v => v ≠ .null

/-- The tool has the default operation it declares. -/
def hasDefault (t : BaseTool A) : Bool := t.defaultOperation.any fun op => (t.operations.get? op).isSome

omit [Py] in
theorem resolve_str {op : String} (h : Obj.get? input t.operationKey = some (.str op)) :
    t.toDefinition.resolveOperation input = (t.operations.get? op).map t.inherit := by
  have hfind : t.toDefinition.operations.find? (fun c => Value.str c.operation = .str op) =
      (t.operations.get? op).map t.inherit := by
    rw [← find?_operations]
    simp only [Value.str.injEq]
  unfold ToolDefinition.resolveOperation
  rw [show Obj.get? input t.toDefinition.operationKey = some (.str op) from h]
  simp only
  split_ifs with hempty
  · rw [← hfind, List.isEmpty_iff.mp hempty]
    rfl
  · exact hfind

omit [Py] in
/-- An operation that is no text has no contract. -/
theorem resolve_other {v : Value} (h : Obj.get? input t.operationKey = some v) (hnull : v ≠ .null)
    (hstr : ∀ op, v ≠ .str op) : t.toDefinition.resolveOperation input = none := by
  unfold ToolDefinition.resolveOperation
  rw [show Obj.get? input t.toDefinition.operationKey = some v from h]
  split_ifs
  · rfl
  · have hfind : t.toDefinition.operations.find? (fun c => Value.str c.operation = v) = none := by
      rw [List.find?_eq_none]
      intro c _ hc
      exact hstr _ (of_decide_eq_true hc).symm
    cases v with
    | null => exact absurd rfl hnull
    | _ => exact hfind

omit [Py] in
/-- Without a name the default operation is meant. -/
theorem resolve_unnamed (h : t.names input = false) :
    t.toDefinition.resolveOperation input =
      t.defaultOperation.bind fun op => (t.operations.get? op).map t.inherit := by
  have hget : Obj.get? input t.toDefinition.operationKey = none ∨
      Obj.get? input t.toDefinition.operationKey = some .null := by
    unfold names at h
    cases hv : Obj.get? input t.operationKey with
    | none => exact .inl hv
    | some v =>
        rw [hv] at h
        have hnull : v = .null := by simpa using h
        exact .inr (hnull ▸ hv)
  have hdefault : t.toDefinition.defaultOperation = t.defaultOperation := rfl
  unfold ToolDefinition.resolveOperation
  split_ifs with hempty
  · cases hd : t.defaultOperation with
    | none => rfl
    | some op =>
        rw [Option.bind_some, ← find?_operations, List.isEmpty_iff.mp hempty]
        rfl
  · rcases hget with hget | hget
    · rw [hget, hdefault]
      cases t.defaultOperation with
      | none => rfl
      | some op => exact find?_operations op
    · rw [hget, hdefault]
      cases t.defaultOperation with
      | none => rfl
      | some op => exact find?_operations op

/-- Without a name nothing is called. -/
theorem dispatch_unnamed (h : t.names input = false) (handler : ClassMember A) :
    t.dispatch input ≠ .ok handler := by
  unfold names at h
  unfold dispatch
  cases hv : Obj.get? input t.operationKey with
  | none => simp
  | some v =>
      rw [hv] at h
      have hnull : v = .null := by simpa using h
      subst hnull
      simp

/-- A name leads to the contract and the handler of one member. -/
theorem agrees_of_names (h : t.names input = true) : t.Agrees input := by
  unfold names at h
  unfold Agrees
  cases hv : Obj.get? input t.operationKey with
  | none =>
      rw [hv] at h
      cases h
  | some v =>
      rw [hv] at h
      have hnull : v ≠ .null := by simpa using h
      by_cases hstr : ∃ op, v = .str op
      · obtain ⟨op, rfl⟩ := hstr
        rw [resolve_str hv]
        unfold dispatch
        rw [hv]
        rcases t.collected_together op with ⟨hnone, hhandler⟩ | ⟨contract, handler, hop, _, hget, hhandler⟩
        · simp [hnone, hhandler]
        · rw [hget]
          refine ⟨handler, ?_, ?_⟩
          · rw [inherit_operation, hop]
            exact hhandler
          · simp only [hhandler]
      · push Not at hstr
        rw [resolve_other hv hnull hstr]
        intro handler
        unfold dispatch
        rw [hv]
        cases v with
        | str op => exact absurd rfl (hstr op)
        | _ => simp

/-- **When dispatch agrees with the contract**: for every tool and every input, exactly when the input
names an operation or the tool has no default operation. -/
theorem agrees_iff : t.Agrees input ↔ (t.names input = true ∨ t.hasDefault = false) := by
  cases hn : t.names input with
  | true => simp [agrees_of_names hn]
  | false =>
      unfold Agrees hasDefault
      rw [resolve_unnamed hn]
      cases hd : t.defaultOperation with
      | none => simpa using dispatch_unnamed hn
      | some op =>
          rw [Option.bind_some]
          cases hget : t.operations.get? op with
          | none => simpa [hget] using dispatch_unnamed hn
          | some contract =>
              simp only [Option.map_some, Bool.false_eq_true, false_or]
              constructor
              · rintro ⟨handler, _, hrun⟩
                exact absurd hrun (dispatch_unnamed hn handler)
              · intro h
                simp [hget] at h

end BaseTool

/-! ### A request without a method -/

section scenario
attribute [local instance] asciiPy

/-- A decorated method of the HTTP tool. -/
def httpMember (memberName op : String) (sideEffects : List SideEffect) (probeAllowed : Bool) :
    ClassMember String :=
  { name := memberName
    contract := some { operation := op, sideEffects := sideEffects, probeAllowed := probeAllowed }
    call := fun _ => op }

/-- `HttpRequestTool`; each method answers with its name. -/
def httpRequestTool : BaseTool String :=
  { name := "http_request"
    inputSchema := httpRequestInputSchema
    outputSchema := httpRequestOutputSchema
    operationKey := "method"
    defaultOperation := some "GET"
    sideEffects := [.external]
    idempotencyKeyFields := some ["url", "method", "headers", "body"]
    guardrails := [{ guardrailType := "scope" }, { guardrailType := "egress" }]
    timeoutMs := 60000
    successIndicator := some { field := "status_code", op := .lt, value := .int 400 }
    scopeTargets := [{ kind := .domain, inputField := "url" }]
    members := [{ name := "_do_request", call := fun _ => "" }, httpMember "get" "GET" [] true,
      httpMember "head" "HEAD" [] true, httpMember "post" "POST" [.external] false,
      httpMember "put" "PUT" [.external] false, httpMember "patch" "PATCH" [.external] false,
      httpMember "delete" "DELETE" [.external] false] }

/-- The class makes the definition that the trusted layer works with. -/
example : httpRequestTool.toDefinition = httpRequest := by decide +kernel

/-- A request without a method has the contract of GET, and is refused as an unknown operation. -/
theorem default_method_not_dispatched :
    (httpRequestTool.toDefinition.resolveOperation [("url", .str "https://example.org/")]).map
        OperationContract.operation = some "GET" ∧
      httpRequestTool.run [("url", .str "https://example.org/")] = .error (.error "KeyError"
        "\"Unknown operation 'None' for tool 'http_request'\"") ∧
      ¬httpRequestTool.Agrees [("url", .str "https://example.org/")] := by
  refine ⟨by decide +kernel, by decide +kernel, ?_⟩
  rintro ⟨handler, _, hrun⟩
  cases hrun

end scenario
end JAgent
