import JAgent.Tools.Lifecycle

/-! # Deletions and confirmations

Registration demands the `destructive` guardrail of every tool that declares DELETE, on the tool or
on an operation, for this guardrail is the only one that turns a DELETE into a request for
confirmation.  But the guardrail looks at the operation that the input selects and at a list of
operation names, never at the side effects of the tool itself, on which `effective_side_effects` falls
back when the input selects no operation.

`deletion_asks_iff` says for which inputs a deletion asks: when an operation is selected, when the
operation's name is listed, or when another check stands in the way.  `purge_asks_nobody` is a tool
that passes registration and deletes without asking. -/

namespace JAgent

/-! ### What the checks come to -/

/-- The check refuses the call or asks for a confirmation. -/
def GuardrailResult.objects (r : GuardrailResult) : Bool := !r.passed || r.triggersConfirmation

/-- Some check refuses the call or asks for a confirmation; a check that raises ends the call. -/
def refusesOrAsks : Except Raised (List GuardrailResult) → Bool
  | .error _ => true
  | .ok results => results.any GuardrailResult.objects

/-- The list of operation names of a `destructive` guardrail has the operation of the input, or is no
list. -/
def listedDestructive (td : ToolDefinition) (input config : Obj) : Bool :=
  match destructiveOperations config with
  | .error _ => true
  | .ok operations => operations.any fun v => v.pyEq ((Obj.get? input td.operationKey).getD .null)

namespace GuardrailRunner
variable {W : Type} (g : GuardrailRunner W) (td : ToolDefinition) (input : Obj) (log : Log) (w : W)

/-- An attached guardrail that refuses, asks or raises. -/
def objects (gr : Guardrail) : Bool :=
  match g.registry gr.guardrailType with
  | none => true
  | some check => match check td input gr.config log w with
    | .error _ => true
    | .ok r => r.objects

/-- A check other than the `destructive` guardrails refuses, asks or raises. -/
def objectsOtherwise (allowedTools : Option (List String)) : Bool :=
  (schemaCheck g.schemaError td input).objects || (whitelistCheck allowedTools td).objects ||
    (!td.dependsOn.isEmpty && (g.dependencyCheck td input log).objects) ||
    td.guardrails.any fun gr => gr.guardrailType ≠ "destructive" && g.objects td input log w gr

theorem schemaCheck_objects : (schemaCheck g.schemaError td input).objects =
    !(schemaCheck g.schemaError td input).passed := by
  unfold schemaCheck
  split <;> rfl

theorem whitelistCheck_objects (allowedTools : Option (List String)) :
    (whitelistCheck allowedTools td).objects = !(whitelistCheck allowedTools td).passed := by
  unfold whitelistCheck
  repeat' split
  all_goals rfl

theorem refusesOrAsks_runAttached : ∀ (grs : List Guardrail) (done : List GuardrailResult),
    refusesOrAsks (g.runAttached td input log w grs done) =
      (done.any GuardrailResult.objects || grs.any (g.objects td input log w))
  | [], done => by
      simp [runAttached, refusesOrAsks]
  | gr :: rest, done => by
      unfold runAttached
      rw [List.any_cons]
      cases hreg : g.registry gr.guardrailType with
      | none => simp [refusesOrAsks, objects, hreg, GuardrailResult.objects]
      | some check =>
          cases hcheck : check td input gr.config log w with
          | error e => simp [refusesOrAsks, objects, hreg, hcheck]
          | ok r =>
              have hobj : g.objects td input log w gr = r.objects := by
                simp only [objects, hreg, hcheck]
              rw [hobj]
              simp only [hcheck]
              split_ifs with hp
              · rw [refusesOrAsks_runAttached rest, List.any_append]
                simp [Bool.or_assoc]
              · simp [refusesOrAsks, GuardrailResult.objects, hp]

/-- **A run of the guardrails is a refusal or a question exactly if one of the checks is.** -/
theorem refusesOrAsks_run (allowedTools : Option (List String)) :
    refusesOrAsks (g.run td input log w allowedTools) =
      (g.objectsOtherwise td input log w allowedTools || td.guardrails.any fun gr =>
        gr.guardrailType = "destructive" && g.objects td input log w gr) := by
  have hsplit : td.guardrails.any (g.objects td input log w) =
      ((td.guardrails.any fun gr => gr.guardrailType ≠ "destructive" && g.objects td input log w gr) ||
        td.guardrails.any fun gr => gr.guardrailType = "destructive" && g.objects td input log w gr) := by
    rw [Bool.eq_iff_iff]
    simp only [Bool.or_eq_true, List.any_eq_true, Bool.and_eq_true, decide_eq_true_eq, ne_eq]
    constructor
    · rintro ⟨gr, hgr, hobj⟩
      by_cases ht : gr.guardrailType = "destructive"
      · exact .inr ⟨gr, hgr, ht, hobj⟩
      · exact .inl ⟨gr, hgr, ht, hobj⟩
    · rintro (⟨gr, hgr, _, hobj⟩ | ⟨gr, hgr, _, hobj⟩)
      · exact ⟨gr, hgr, hobj⟩
      · exact ⟨gr, hgr, hobj⟩
  have hschema := schemaCheck_objects g td input
  have hlist := whitelistCheck_objects td allowedTools
  unfold run objectsOtherwise
  simp only
  split_ifs with h1 h2 h3 h4
  · simp [refusesOrAsks, hschema, h1]
  · simp [refusesOrAsks, hlist, h2]
  · rw [refusesOrAsks_runAttached, hsplit]
    simp [hschema, hlist, h1, h2, h3]
  · simp only [Bool.not_eq_true'] at h4
    have hdep : (g.dependencyCheck td input log).objects = true := by
      simp [GuardrailResult.objects, h4]
    simp [refusesOrAsks, hdep, h3]
  · rw [refusesOrAsks_runAttached, hsplit]
    simp [hschema, hlist, h1, h2, h3, Bool.or_assoc]

end GuardrailRunner

/-! ### The guardrail for deletions -/

/-- The operation that the input selects deletes or demands a confirmation. -/
def contractAsks (td : ToolDefinition) (input : Obj) : Bool :=
  match td.resolveOperation input with
  | some op => op.sideEffects.contains .delete || op.requiresConfirmation
  | none => false

theorem mem_operations_of_resolve {td : ToolDefinition} {input : Obj} {op : OperationContract}
    (h : td.resolveOperation input = some op) : op ∈ td.operations := by
  unfold ToolDefinition.resolveOperation at h
  repeat' split at h
  all_goals first
    | cases h
    | exact List.mem_of_find?_eq_some h

/-- A tool with a deletion that may be registered attaches the guardrail. -/
theorem exists_destructive_of_safe {td : ToolDefinition} {input : Obj}
    (hsafe : validateRegistrationSafety td = []) (hdel : .delete ∈ td.effectiveSideEffects input) :
    ∃ gr ∈ td.guardrails, gr.guardrailType = "destructive" := by
  have hdelete : (td.sideEffects.contains .delete ||
      td.operations.any fun op => op.sideEffects.contains .delete) = true := by
    rw [Bool.or_eq_true]
    unfold ToolDefinition.effectiveSideEffects at hdel
    split at hdel
    next op hop =>
      refine .inr ?_
      rw [List.any_eq_true]
      exact ⟨op, mem_operations_of_resolve hop, by simpa using hdel⟩
    next => exact .inl (by simpa using hdel)
  unfold validateRegistrationSafety at hsafe
  simp only [List.append_eq_nil_iff] at hsafe
  have hfirst := hsafe.1.1
  rw [hdelete] at hfirst
  split_ifs at hfirst with hdeclared
  simpa using hdeclared

/-- An operation that is selected and deletes asks. -/
theorem contractAsks_of_delete {td : ToolDefinition} {input : Obj}
    (hdel : .delete ∈ td.effectiveSideEffects input) :
    contractAsks td input = (td.resolveOperation input).isSome := by
  unfold ToolDefinition.effectiveSideEffects at hdel
  unfold contractAsks
  cases hop : td.resolveOperation input with
  | none => rfl
  | some op =>
      rw [hop] at hdel
      simp only at hdel
      simp [hdel]

/-- The input selects an operation, its operation is listed by a `destructive` guardrail, or another
check stands in the way. -/
def asksForDeletion {W : Type} (g : GuardrailRunner W) (td : ToolDefinition) (input : Obj) (log : Log)
    (w : W) (allowedTools : Option (List String)) : Bool :=
  (td.resolveOperation input).isSome ||
    (td.guardrails.any fun gr =>
      gr.guardrailType = "destructive" && listedDestructive td input gr.config) ||
    g.objectsOtherwise td input log w allowedTools

section destructive
variable {W : Type} [Py] {g : GuardrailRunner W} {td : ToolDefinition} {input : Obj} {log : Log} {w : W}

theorem objects_destructive (hreg : g.registry "destructive" = some destructiveCheck) {gr : Guardrail}
    (hgr : gr.guardrailType = "destructive") :
    g.objects td input log w gr = (listedDestructive td input gr.config || contractAsks td input) := by
  unfold GuardrailRunner.objects listedDestructive
  rw [hgr, hreg]
  simp only [destructiveCheck]
  cases destructiveOperations gr.config with
  | error e => rfl
  | ok operations =>
      simp only
      split_ifs with hc hl
      · have hasks : contractAsks td input = true := hc
        rw [hasks, Bool.or_true]
        rfl
      · rw [hl, Bool.true_or]
        rfl
      · have hasks : contractAsks td input = false := by
          rw [Bool.not_eq_true] at hc
          exact hc
        rw [hasks, Bool.or_false]
        simp only [Bool.not_eq_true] at hl
        rw [hl]
        rfl

/-- **Whether the guardrails of a deletion refuse or ask.** -/
theorem refusesOrAsks_delete (hreg : g.registry "destructive" = some destructiveCheck)
    (hsafe : validateRegistrationSafety td = []) (hdel : .delete ∈ td.effectiveSideEffects input)
    (allowedTools : Option (List String)) :
    refusesOrAsks (g.run td input log w allowedTools) =
      asksForDeletion g td input log w allowedTools := by
  obtain ⟨guard, hguard, htype⟩ := exists_destructive_of_safe hsafe hdel
  have hcontract := contractAsks_of_delete hdel
  have hdestructive : (td.guardrails.any fun gr =>
      gr.guardrailType = "destructive" && g.objects td input log w gr) =
      ((td.resolveOperation input).isSome || td.guardrails.any fun gr =>
        gr.guardrailType = "destructive" && listedDestructive td input gr.config) := by
    rw [Bool.eq_iff_iff]
    simp only [Bool.or_eq_true, List.any_eq_true, Bool.and_eq_true, decide_eq_true_eq]
    constructor
    · rintro ⟨gr, hgr, ht, hobj⟩
      rw [objects_destructive hreg ht, Bool.or_eq_true, hcontract] at hobj
      rcases hobj with hl | hc
      · exact .inr ⟨gr, hgr, ht, hl⟩
      · exact .inl hc
    · rintro (hc | ⟨gr, hgr, ht, hl⟩)
      · refine ⟨guard, hguard, htype, ?_⟩
        rw [objects_destructive hreg htype, hcontract, hc, Bool.or_true]
      · refine ⟨gr, hgr, ht, ?_⟩
        rw [objects_destructive hreg ht, hl, Bool.true_or]
  rw [g.refusesOrAsks_run, hdestructive]
  unfold asksForDeletion
  rw [Bool.or_comm]

end destructive

/-! ### The way to the tool function -/

/-- The log holds the operator's consent to the request under a key. -/
def Confirmed (log : Log) (key : String) : Prop :=
  ∃ request answer,
    (∃ row ∈ log, row.payload = .confirmationRequested request ∧ row.idempotencyKey = some key) ∧
    (∃ row ∈ log, row.payload = .confirmationReceived answer) ∧
    answer.confirmationId = request.confirmationId ∧ answer.confirmed = true

namespace ToolExecutor
variable {W : Type} [Py] (x : ToolExecutor W)

/-- Whatever happens after the checks of the call have seen `s`, it is in its tool function only
with the operator's consent. -/
def NeverUnconfirmed (c : Call W) (s : Shared W) : Prop :=
  ∀ (t t' u : Traffic W) (i : ℕ) (d : Bool) (f : CallFlight W), t.shared = s →
    t.flights[i]? = some ⟨start c, d⟩ → x.trafficStep t (.act i) = some t' →
    Lib.Reaches x.trafficStep t' u → u.flights[i]? = some f → f.proc.pc.inCall = true →
    Confirmed u.shared.log (x.confirmKey c)

/-- What is known of a call after checks that refused or asked. -/
structure Asked (log : Log) (p : Proc W) : Prop where
  guarding : p.pc ≠ .guarding
  looking : ∀ {b}, p.pc = .looking b → b = true
  answering : ∀ {request}, p.pc = .answering request → ∃ row ∈ log,
    row.payload = .confirmationRequested request ∧ row.idempotencyKey = some (x.confirmKey p.call)
  confirmed : p.pc = .calling ∨ p.pc.inCall = true → Confirmed log (x.confirmKey p.call)

omit [Py] in
theorem Confirmed.mono {log log' : Log} {key : String} (h : Confirmed log key)
    (hlog : ∀ row ∈ log, row ∈ log') : Confirmed log' key := by
  obtain ⟨request, answer, ⟨row, hrow, hp⟩, ⟨row', hrow', hp'⟩, hrest⟩ := h
  exact ⟨request, answer, ⟨row, hlog row hrow, hp⟩, ⟨row', hlog row' hrow', hp'⟩, hrest⟩

theorem Asked.mono {log log' : Log} {p : Proc W} (h : x.Asked log p)
    (hlog : ∀ row ∈ log, row ∈ log') : x.Asked log' p where
  guarding := h.guarding
  looking := h.looking
  answering hq := by
    obtain ⟨row, hrow, hp⟩ := h.answering hq
    exact ⟨row, hlog row hrow, hp⟩
  confirmed hq := Confirmed.mono (h.confirmed hq) hlog

/-- A call gets into its tool function only from Tool called. -/
theorem inCall_stepCall {p : Proc W} {s : Shared W} (h : (x.stepCall p s).1.pc.inCall = true) :
    p.pc = .calling ∨ p.pc.inCall = true := by
  obtain ⟨c, tid, pc⟩ := p
  cases pc with
  | guarding =>
      simp only [stepCall, goto] at h
      repeat' split at h
      all_goals cases h
  | looking confirm =>
      simp only [stepCall, goto, afterMiss] at h
      repeat' split at h
      all_goals
        try simp only at h
        cases h
  | requesting | answering =>
      simp only [stepCall, goto] at h
      repeat' split at h
      all_goals cases h
  | blocked | denying | asking | returned | raised => cases h
  | calling => exact .inl rfl
  | _ => exact .inr rfl

/-- An action of a call that was refused or asked. -/
theorem Asked.act {p : Proc W} {s : Shared W} (h : x.Asked s.log p) (hf : p.pc.finished = false) :
    x.Asked (x.stepCall p s).2.log (x.stepCall p s).1 := by
  have ho := x.origin_stepCall p s hf
  have hgrow : ∀ row ∈ s.log, row ∈ (x.stepCall p s).2.log := fun row hrow => x.mem_stepCall hrow
  refine ⟨ho.guarding, ?_, ?_, ?_⟩
  · intro b hb
    exact absurd (ho.looking hb) h.guarding
  · intro request hq
    obtain ⟨_, row, hrow, hp⟩ := ho.answering hq
    obtain ⟨hmem, _, hkey⟩ := Log.findByIdempotencyKey_some hrow
    rw [stepCall_call]
    exact ⟨row, hgrow row hmem, hp, hkey⟩
  · intro hpc
    rw [stepCall_call]
    rcases hpc with hpc | hpc
    · rcases ho.calling hpc with ⟨hl, hnd⟩ | ⟨request, answer, hat, hans, hconf⟩
      · -- a call that was asked for does not pass its lookup unasked
        cases hq : p.pc with
        | looking b =>
            obtain rfl := h.looking hq
            simp [Proc.demands, hq] at hnd
        | _ => simp [hq, CallPc.isLooking] at hl
      · obtain ⟨row, hrow, hp⟩ := h.answering hat
        obtain ⟨⟨row', hrow', hp'⟩, hid⟩ := Log.findConfirmationById_some hans
        exact ⟨request, answer, ⟨row, hgrow row hrow, hp⟩, ⟨row', hgrow row' hrow', hp'⟩, hid, hconf⟩
    · exact Confirmed.mono (h.confirmed (x.inCall_stepCall hpc)) hgrow

/-- Checks that refuse or ask. -/
theorem asked_of_guarding {c : Call W} {s : Shared W} (h : refusesOrAsks
    (x.guardrails.run c.td c.input s.log s.world c.allowedTools) = true) :
    x.Asked (x.stepCall (start c) s).2.log (x.stepCall (start c) s).1 := by
  simp only [start, stepCall]
  cases hrun : x.guardrails.run c.td c.input s.log s.world c.allowedTools with
  | error e => constructor <;> simp [CallPc.inCall]
  | ok results =>
      rw [hrun] at h
      simp only
      split
      next r hr => constructor <;> simp [CallPc.inCall]
      next hnone =>
        refine ⟨by simp, ?_, by simp, by simp [CallPc.inCall]⟩
        intro b hb
        obtain rfl := CallPc.looking.inj hb
        obtain ⟨r, hr, hobj⟩ := List.any_eq_true.mp h
        have hpassed := List.find?_eq_none.mp hnone r hr
        rw [List.any_eq_true]
        refine ⟨r, hr, ?_⟩
        simp only [Bool.not_eq_true', Bool.not_eq_false] at hpassed
        simpa [GuardrailResult.objects, hpassed] using hobj

/-- A call stays as it is while it does not act. -/
theorem unmoved_trafficStep {t u : Traffic W} {e : Happening W} (hs : x.trafficStep t e = some u)
    {i : ℕ} {f : CallFlight W} (hf : t.flights[i]? = some f) (he : ∀ j, e = .act j → j ≠ i) :
    u.flights[i]? = some f := by
  have hlt := (List.getElem?_eq_some_iff.mp hf).1
  cases e with
  | call c =>
      obtain rfl := Option.some.inj hs
      exact (List.getElem?_append_left hlt).trans hf
  | act j =>
      simp only [trafficStep] at hs
      split at hs
      · cases hs
      · split_ifs at hs
        obtain rfl := Option.some.inj hs
        exact (List.getElem?_set_ne (he j rfl)).trans hf
  | answer cid confirmed operatorId =>
      obtain rfl := Option.some.inj hs
      exact hf
  | note payload =>
      simp only [trafficStep] at hs
      split_ifs at hs
      obtain rfl := Option.some.inj hs
      exact hf
  | outside w =>
      obtain rfl := Option.some.inj hs
      exact hf

/-- A call that was refused or asked stays so. -/
theorem asked_trafficStep {t u : Traffic W} {e : Happening W} (hs : x.trafficStep t e = some u) {i : ℕ}
    {f : CallFlight W} (hf : t.flights[i]? = some f) (h : x.Asked t.shared.log f.proc) :
    ∃ g, u.flights[i]? = some g ∧ g.proc.call = f.proc.call ∧ x.Asked u.shared.log g.proc := by
  by_cases he : ∀ j, e = .act j → j ≠ i
  · exact ⟨f, x.unmoved_trafficStep hs hf he, rfl, h.mono x fun row hrow => x.mem_trafficStep hs hrow⟩
  · push Not at he
    obtain ⟨j, rfl, rfl⟩ := he
    simp only [trafficStep, hf] at hs
    split_ifs at hs with hfin
    obtain rfl := Option.some.inj hs
    exact ⟨_, List.getElem?_set_self (List.getElem?_eq_some_iff.mp hf).1, x.stepCall_call _ _,
      h.act x (by simpa using hfin)⟩

theorem asked_reaches {t u : Traffic W} (hr : Lib.Reaches x.trafficStep t u) {i : ℕ}
    {f : CallFlight W} (hf : t.flights[i]? = some f) (h : x.Asked t.shared.log f.proc) :
    ∃ g, u.flights[i]? = some g ∧ g.proc.call = f.proc.call ∧ x.Asked u.shared.log g.proc := by
  induction hr with
  | refl => exact ⟨f, hf, rfl, h⟩
  | tail _ hs ih =>
      obtain ⟨g, hg, hcall, hasked⟩ := ih
      obtain ⟨g', hg', hcall', hasked'⟩ := x.asked_trafficStep hs hg hasked
      exact ⟨g', hg', hcall'.trans hcall, hasked'⟩

/-- A call whose checks refuse or ask is never in its tool function without consent. -/
theorem neverUnconfirmed {c : Call W} {s : Shared W} (h : refusesOrAsks
    (x.guardrails.run c.td c.input s.log s.world c.allowedTools) = true) : x.NeverUnconfirmed c s := by
  intro t t' u i d f hshared hget hact hreach hf hin
  simp only [trafficStep, hget] at hact
  split_ifs at hact with hfin
  obtain rfl := Option.some.inj hact
  have hasked := x.asked_of_guarding h
  rw [← hshared] at hasked
  have hlt := (List.getElem?_eq_some_iff.mp hget).1
  obtain ⟨g, hg, hcall, hg'⟩ := x.asked_reaches hreach (List.getElem?_set_self hlt) hasked
  obtain rfl : f = g := Option.some.inj (hf.symm.trans hg)
  have hkey : f.proc.call = c := hcall.trans (x.stepCall_call _ _)
  rw [← hkey]
  exact hg'.confirmed (.inr hin)

/-- **Exactly when a deletion asks.**  For every tool that may be registered and every input whose
effective side effects have DELETE, the guardrails refuse or ask, and the tool function is reached
only with the operator's consent, if and only if the input selects an operation, its operation is
listed, or another check stands in the way. -/
theorem deletion_asks_iff {c : Call W} {s : Shared W}
    (hreg : x.guardrails.registry "destructive" = some destructiveCheck)
    (hsafe : validateRegistrationSafety c.td = []) (hdel : .delete ∈ c.td.effectiveSideEffects c.input) :
    (refusesOrAsks (x.guardrails.run c.td c.input s.log s.world c.allowedTools) = true ∧
      x.NeverUnconfirmed c s) ↔
      asksForDeletion x.guardrails c.td c.input s.log s.world c.allowedTools = true := by
  rw [← refusesOrAsks_delete hreg hsafe hdel]
  exact ⟨fun h => h.1, fun h => ⟨h, x.neverUnconfirmed h⟩⟩

end ToolExecutor

/-! ### A tool that deletes -/

section scenario
attribute [local instance] asciiPy

/-- The guardrails with the one for deletions. -/
def guardedExecutor : ToolExecutor ℕ :=
  { digest := id
    guardrails := { remoteExecutor.guardrails with
      registry := fun kind => if kind = "destructive" then some destructiveCheck else none } }

/-- A tool without operations that deletes what it is given. -/
def purge (input : Obj) : Call ℕ :=
  { toolName := "purge"
    input
    td := { name := "purge", sideEffects := [.delete], guardrails := [{ guardrailType := "destructive" }] }
    toolFn := serve, toolCallId := "t1", confirmationId := "c1" }

/-- The tool may be registered and its call deletes, but nobody is asked: the third action of the
call is Tool called. -/
theorem purge_asks_nobody :
    let c := purge [("path", .str "a.txt")]
    let s : Shared ℕ := ⟨[], 0⟩
    validateRegistrationSafety c.td = [] ∧ .delete ∈ c.td.effectiveSideEffects c.input ∧
      ¬(refusesOrAsks (guardedExecutor.guardrails.run c.td c.input s.log s.world c.allowedTools) = true ∧
        guardedExecutor.NeverUnconfirmed c s) ∧
      (guardedExecutor.runCall 3 (ToolExecutor.start c) s).1.pc.inCall = true := by
  refine ⟨by decide +kernel, by decide +kernel, fun h => ?_, by decide +kernel⟩
  exact absurd h.1 (by decide +kernel)

/-- The same tool with "delete" as its operation asks. -/
theorem purge_of_operation_asks :
    let c := purge [("operation", .str "delete"), ("path", .str "a.txt")]
    let s : Shared ℕ := ⟨[], 0⟩
    validateRegistrationSafety c.td = [] ∧
      refusesOrAsks (guardedExecutor.guardrails.run c.td c.input s.log s.world c.allowedTools) = true ∧
        guardedExecutor.NeverUnconfirmed c s := by
  refine ⟨by decide +kernel, ?_⟩
  exact (guardedExecutor.deletion_asks_iff rfl (by decide +kernel) (by decide +kernel)).mpr
    (by decide +kernel)

end scenario
end JAgent
