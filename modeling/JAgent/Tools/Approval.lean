import JAgent.Tools.Repeats

/-! # Approval by the operator

A call that demands a confirmation looks for a request under its confirmation key and goes on
when the operator has confirmed that request.  The key is the idempotency key of the call, or the
name of the tool when it has none, so the request may be that of another call.

`approval_binds_input` is about runs in which every call that looks for a request finds, among
the ended calls that demanded a confirmation under its key, only calls that asked the same of
the same tool. -/

namespace JAgent

namespace ToolExecutor

/-! ### The approval of a call -/

section approval
variable {W : Type}

/-- The log holds the operator's consent to a request for this tool with this input. -/
def Approved (log : Log) (c : Call W) : Prop :=
  ∃ request answer, (∃ row ∈ log, row.payload = .confirmationRequested request) ∧
    (∃ row ∈ log, row.payload = .confirmationReceived answer) ∧
    answer.confirmationId = request.confirmationId ∧ answer.confirmed = true ∧
    request.toolName = c.toolName ∧ (Value.obj request.input).pyEq (.obj c.input) = true

/-- Every call that demanded a confirmation and reaches the tool function has been approved. -/
def ApprovalsBind (t : Traffic W) : Prop :=
  ∀ f ∈ t.flights, f.demanded = true → (∃ n, f.proc.pc = .invoking n) →
    Approved t.shared.log f.proc.call

/-- What is known of a call from the action it is at. -/
structure Aware (log : Log) (f : CallFlight W) : Prop where
  guarding : f.proc.pc = .guarding → f.demanded = false
  looking : f.proc.pc.isLooking = true → f.demanded = false
  requesting : f.proc.pc = .requesting → f.demanded = true
  asking : f.proc.pc = .asking → f.demanded = true
  answering : ∀ {request}, f.proc.pc = .answering request →
    (∃ row ∈ log, row.payload = .confirmationRequested request) ∧
      request.toolName = f.proc.call.toolName ∧
      (Value.obj request.input).pyEq (.obj f.proc.call.input) = true
  approved : f.demanded = true → f.proc.pc = .calling ∨ (∃ n, f.proc.pc = .invoking n) →
    Approved log f.proc.call

theorem Approved.mono {log log' : Log} {c : Call W} (h : Approved log c)
    (hlog : ∀ row ∈ log, row ∈ log') : Approved log' c := by
  obtain ⟨request, answer, ⟨row, hrow, hp⟩, ⟨row', hrow', hp'⟩, hrest⟩ := h
  exact ⟨request, answer, ⟨row, hlog row hrow, hp⟩, ⟨row', hlog row' hrow', hp'⟩, hrest⟩

theorem Aware.mono {log log' : Log} {f : CallFlight W} (h : Aware log f)
    (hlog : ∀ row ∈ log, row ∈ log') : Aware log' f where
  guarding := h.guarding
  looking := h.looking
  requesting := h.requesting
  asking := h.asking
  answering hq := by
    obtain ⟨⟨row, hrow, hp⟩, hrest⟩ := h.answering hq
    exact ⟨⟨row, hlog row hrow, hp⟩, hrest⟩
  approved hd hpc := (h.approved hd hpc).mono hlog

theorem aware_start (log : Log) (c : Call W) : Aware log ({ proc := start c } : CallFlight W) where
  guarding _ := rfl
  looking h := by cases h
  requesting h := by cases h
  asking h := by cases h
  answering h := by cases h
  approved h := by cases h

end approval

variable {W : Type} [Py] (x : ToolExecutor W)

/-! ### Where a call comes from -/

/-- The action a call was at before, told from the one it is at now. -/
structure Origin (p : Proc W) (s : Shared W) (next : CallPc) : Prop where
  guarding : next ≠ .guarding
  looking : ∀ {b}, next = .looking b → p.pc = .guarding
  requesting : next = .requesting → p.demands = true
  asking : next = .asking → p.pc = .requesting
  answering : ∀ {request}, next = .answering request → p.pc = .requesting ∧
    ∃ row, s.log.findByIdempotencyKey .confirmation (x.confirmKey p.call) = some row ∧
      row.payload = .confirmationRequested request
  calling : next = .calling → (p.pc.isLooking = true ∧ p.demands = false) ∨
    ∃ request answer, p.pc = .answering request ∧
      s.log.findConfirmationById request.confirmationId = some answer ∧ answer.confirmed = true
  invoking : ∀ {n}, next = .invoking n → p.pc = .calling ∨ ∃ m, p.pc = .invoking m

theorem origin_afterInvoke (p : Proc W) (s : Shared W) (attempt : ℕ) (a : Answer)
    (hp : p.pc = .invoking attempt) : x.Origin p s (x.afterInvoke p attempt a) := by
  unfold afterInvoke afterOutput
  constructor
  all_goals
    repeat' split
    all_goals simp [hp]

/-- **Where an action comes from.** -/
theorem origin_stepCall (p : Proc W) (s : Shared W) (hf : p.pc.finished = false) :
    x.Origin p s (x.stepCall p s).1.pc := by
  obtain ⟨c, tid, pc⟩ := p
  cases pc with
  | invoking attempt => exact x.origin_afterInvoke ⟨c, tid, .invoking attempt⟩ s attempt _ rfl
  | looking confirm =>
      simp only [stepCall, goto, afterMiss]
      constructor
      all_goals
        repeat' split
        all_goals simp_all [Proc.demands, CallPc.isLooking]
  | calling =>
      show x.Origin _ s (afterCalled ⟨c, tid, .calling⟩)
      obtain hpc | hpc := afterCalled_cases ⟨c, tid, .calling⟩
      all_goals
        rw [hpc]
        constructor
        all_goals simp
  | returned r => simp [CallPc.finished] at hf
  | raised e => simp [CallPc.finished] at hf
  | _ =>
      simp only [stepCall, goto, emit]
      constructor
      all_goals
        repeat' split
        all_goals simp_all

/-! ### What a run keeps -/

/-- A call looks for a request only when every ended call that demanded a confirmation under the
same key has asked the same of the same tool. -/
def seeksOwnApproval (t : Traffic W) : Happening W → Bool
  | .act i => match t.flights[i]? with
    | none => true
    | some f => (match f.proc.pc with
        | .requesting => false
        | _ => true) ||
        t.flights.all fun g => !g.proc.pc.finished || !g.demanded ||
          x.confirmKey g.proc.call ≠ x.confirmKey f.proc.call || sameRequest g.proc.call f.proc.call
  | _ => true

/-- The request of a row under a key is that of an ended call with this confirmation key. -/
def Requested (t : Traffic W) : Prop :=
  ∀ row ∈ t.shared.log, ∀ request, row.payload = .confirmationRequested request →
    ∀ k, row.idempotencyKey = some k →
      ∃ g ∈ t.flights, g.proc.pc.finished = true ∧ g.demanded = true ∧
        x.confirmKey g.proc.call = k ∧ request.toolName = g.proc.call.toolName ∧
        request.input = g.proc.call.input

/-- One action of a call that seeks only its own approval. -/
theorem Aware.act {t : Traffic W} {i : ℕ} {f : CallFlight W} (hf : t.flights[i]? = some f)
    (hfin : f.proc.pc.finished = false) (h : Aware t.shared.log f) (hreq : x.Requested t)
    (hok : x.seeksOwnApproval t (.act i) = true) :
    Aware (x.stepCall f.proc t.shared).2.log
      ⟨(x.stepCall f.proc t.shared).1, f.demanded || f.proc.demands⟩ := by
  have ho := x.origin_stepCall f.proc t.shared hfin
  have hgrow : ∀ row ∈ t.shared.log, row ∈ (x.stepCall f.proc t.shared).2.log :=
    fun row hrow => x.mem_stepCall hrow
  have hdem : f.proc.demands = true → f.proc.pc.isLooking = true := by
    unfold Proc.demands
    split
    · next confirm hpc =>
        intro _
        rw [hpc]
        rfl
    · intro h
      cases h
  refine ⟨?_, ?_, ?_, ?_, ?_, ?_⟩
  · intro hpc
    exact absurd hpc ho.guarding
  · intro hpc
    simp only at hpc
    cases hq : (x.stepCall f.proc t.shared).1.pc with
    | looking b =>
        have hg := ho.looking hq
        have hnot : f.proc.demands = false := by simp [Proc.demands, hg]
        simp [h.guarding hg, hnot]
    | _ => simp [hq, CallPc.isLooking] at hpc
  · intro hpc
    simp [ho.requesting hpc]
  · intro hpc
    simp [h.requesting (ho.asking hpc)]
  · intro request hpc
    obtain ⟨hat, row, hrow, hp⟩ := ho.answering hpc
    obtain ⟨hmem, _, hkey⟩ := Log.findByIdempotencyKey_some hrow
    obtain ⟨g, hg, hgf, hgd, hgk, hname, hinput⟩ := hreq row hmem request hp _ hkey
    simp only [seeksOwnApproval, hf, hat, Bool.false_or, List.all_eq_true, Bool.or_eq_true,
      decide_eq_true_eq, Bool.not_eq_true'] at hok
    rcases hok g hg with ((hno | hno) | hne) | hsame
    · rw [hgf] at hno
      cases hno
    · rw [hgd] at hno
      cases hno
    · exact absurd hgk hne
    · simp only [sameRequest, Bool.and_eq_true, decide_eq_true_eq] at hsame
      simp only [stepCall_call]
      rw [hname, hinput]
      exact ⟨⟨row, hgrow row hmem, hp⟩, hsame⟩
  · intro hd hpc
    simp only [Bool.or_eq_true] at hd
    simp only [stepCall_call]
    rcases hpc with hpc | ⟨n, hpc⟩
    · rcases ho.calling hpc with ⟨hl, hnd⟩ | ⟨request, answer, hat, hans, hconf⟩
      · rcases hd with hd | hd
        · rw [h.looking hl] at hd
          cases hd
        · rw [hnd] at hd
          cases hd
      · obtain ⟨hrow, hname, hinput⟩ := h.answering hat
        obtain ⟨hrow', hid⟩ := Log.findConfirmationById_some hans
        have happ : Approved t.shared.log f.proc.call :=
          ⟨request, answer, hrow, hrow', hid, hconf, hname, hinput⟩
        exact happ.mono hgrow
    · have hstage : f.proc.pc = .calling ∨ ∃ m, f.proc.pc = .invoking m := ho.invoking hpc
      have hnd : f.proc.demands = false := by
        rcases hstage with hc | ⟨m, hm⟩
        · simp [Proc.demands, hc]
        · simp [Proc.demands, hm]
      rcases hd with hd | hd
      · exact (h.approved hd hstage).mono hgrow
      · rw [hnd] at hd
        cases hd

theorem Requested.step {t u : Traffic W} {e : Happening W} (h : x.Requested t)
    (haw : ∀ f ∈ t.flights, Aware t.shared.log f) (hs : x.trafficStep t e = some u) :
    x.Requested u := by
  intro row hrow request hp k hk
  have hkey : row.idempotencyKey ≠ none := by simp [hk]
  rcases x.keyed_row_trafficStep hs hrow hkey with hold | ⟨p, hp'⟩ | ⟨i, f, rfl, hf, hcase⟩
  · obtain ⟨g, hg, hgf, hrest⟩ := h row hold request hp k hk
    obtain ⟨j, hj⟩ := List.mem_iff_getElem?.mp hg
    obtain ⟨g', hg', _, hsame⟩ := x.stays_trafficStep hs hj
    obtain rfl := hsame hgf
    exact ⟨_, List.mem_of_getElem? hg', hgf, hrest⟩
  · rw [hp'] at hp
    cases hp
  · rcases hcase with ⟨hpc, hp', hrk⟩ | ⟨_, _, _, _, hp', _⟩
    · have hlt := (List.getElem?_eq_some_iff.mp hf).1
      have hd := (haw f (List.mem_of_getElem? hf)).asking hpc
      simp only [trafficStep, hf, hpc, CallPc.finished, Bool.false_eq_true, if_false] at hs
      obtain rfl := Option.some.inj hs
      obtain rfl : x.confirmationRequest f.proc = request := by
        rw [hp'] at hp
        exact Payload.confirmationRequested.inj hp
      refine ⟨_, List.mem_of_getElem? (List.getElem?_set_self hlt), ?_, ?_, ?_, ?_, ?_⟩
      · simp only [stepCall, hpc, CallPc.finished]
      · simp [hd]
      · simp only [stepCall_call]
        rw [hrk] at hk
        exact Option.some.inj hk
      · simp only [stepCall_call, confirmationRequest]
      · simp only [stepCall_call, confirmationRequest]
    · rw [hp'] at hp
      cases hp

theorem aware_step {t u : Traffic W} {e : Happening W} (hreq : x.Requested t)
    (haw : ∀ f ∈ t.flights, Aware t.shared.log f) (hok : x.seeksOwnApproval t e = true)
    (hs : x.trafficStep t e = some u) : ∀ f ∈ u.flights, Aware u.shared.log f := by
  intro f hf
  obtain ⟨j, hj⟩ := List.mem_iff_getElem?.mp hf
  rcases x.flight_trafficStep hs hj with hold | ⟨c, rfl⟩ | ⟨f', rfl, hf', hfin, rfl, hu⟩
  · exact (haw f (List.mem_of_getElem? hold)).mono fun row hrow => x.mem_trafficStep hs hrow
  · exact aware_start _ c
  · rw [hu]
    exact (haw f' (List.mem_of_getElem? hf')).act x hf' hfin hreq hok

/-- **Approval binds to the approved input**, in every run in which every call that looks for a
request finds only its own one under its key. -/
theorem approval_binds_input {w : W} {t : Traffic W}
    (h : Lib.ReachesVia x.trafficStep (fun t e => x.seeksOwnApproval t e = true) (idle w) t) :
    ApprovalsBind t := by
  have hinit : x.Requested (idle w) ∧ ∀ f ∈ (idle w).flights, Aware (idle w).shared.log f := by
    refine ⟨?_, ?_⟩
    · intro row hrow
      cases hrow
    · intro f hf
      cases hf
  have hinv : x.Requested t ∧ ∀ f ∈ t.flights, Aware t.shared.log f :=
    h.invariant (I := fun t => x.Requested t ∧ ∀ f ∈ t.flights, Aware t.shared.log f) hinit
      fun t u e _ hok ht hs => ⟨ht.1.step x ht.2 hs, x.aware_step ht.1 ht.2 hok hs⟩
  intro f hf hd hpc
  exact (hinv.2 f hf).approved hd (.inr hpc)

end ToolExecutor

/-! ### Two uploads -/

section scenario
attribute [local instance] asciiPy

/-- The schema of the tool that uploads files. -/
def uploadSchema : Obj :=
  [("type", .str "object"),
    ("properties", .obj [("paths", .obj [("type", .str "array")])])]

/-- Upload a file; the policy of the tool requires a confirmation. -/
def upload (path toolCallId confirmationId : String) : Call ℕ :=
  { toolName := "browser_file_upload"
    input := [("paths", .arr [.str path])]
    td := browserMcpTool "browser_file_upload" uploadSchema (policyFor "browser_file_upload" false)
    toolFn := serve, toolCallId, confirmationId }

/-- Ask for one upload, get it approved, and make another one up to the tool function. -/
def uploads (first second : String) : List (Happening ℕ) :=
  Happening.call (upload first "t1" "c1") :: (List.replicate 4 (Happening.act 0) ++
    .note (.runPaused "waiting_confirmation") :: .answer "c1" true "op" ::
    .call (upload second "t2" "c2") :: List.replicate 5 (Happening.act 1))

/-- The call is about to invoke its tool function. -/
def isInvoking : CallPc → Bool
  | .invoking _ => true
  | _ => false

theorem isInvoking_iff {pc : CallPc} : isInvoking pc = true ↔ ∃ n, pc = .invoking n := by
  cases pc <;> simp [isInvoking]

/-- The payload is no request for a confirmation of this input. -/
def asksOther (input : Obj) : Payload → Bool
  | .confirmationRequested request => !(Value.obj request.input).pyEq (.obj input)
  | _ => true

/-- The approval of one upload lets another file through. -/
theorem approval_of_other_upload : ∃ t,
    Lib.Reaches remoteExecutor.trafficStep (ToolExecutor.idle 0) t ∧
      ¬ToolExecutor.ApprovalsBind t := by
  obtain ⟨t, ht, hp⟩ := Lib.exists_reaches_of_run remoteExecutor.trafficStep
    (uploads "a.pdf" "b.pdf") (ToolExecutor.idle 0) (fun t => t.flights.any fun f =>
      f.demanded && isInvoking f.proc.pc && t.shared.log.all fun row =>
        asksOther f.proc.call.input row.payload)
    (by decide +kernel)
  simp only [List.any_eq_true, Bool.and_eq_true, List.all_eq_true] at hp
  obtain ⟨f, hf, ⟨hd, hpc⟩, hall⟩ := hp
  refine ⟨t, ht, fun h => ?_⟩
  obtain ⟨request, _, ⟨row, hrow, hreq⟩, _, _, _, _, hinput⟩ := h f hf hd (isInvoking_iff.mp hpc)
  have hne := hall row hrow
  rw [hreq] at hne
  simp [asksOther, hinput] at hne

/-- The same upload again is covered by its approval. -/
theorem approval_of_same_upload : ∃ t,
    Lib.ReachesVia remoteExecutor.trafficStep
      (fun t e => remoteExecutor.seeksOwnApproval t e = true) (ToolExecutor.idle 0) t ∧
      (∃ f ∈ t.flights, f.demanded = true ∧ ∃ n, f.proc.pc = .invoking n) ∧
      ToolExecutor.ApprovalsBind t := by
  obtain ⟨t, ht, hp⟩ := Lib.exists_reachesVia_of_run remoteExecutor.trafficStep
    remoteExecutor.seeksOwnApproval (uploads "a.pdf" "a.pdf") (ToolExecutor.idle 0)
    (fun t => t.flights.any fun f => f.demanded && isInvoking f.proc.pc) (by decide +kernel)
  simp only [List.any_eq_true, Bool.and_eq_true] at hp
  obtain ⟨f, hf, hd, hpc⟩ := hp
  exact ⟨t, ht, ⟨f, hf, hd, isInvoking_iff.mp hpc⟩, remoteExecutor.approval_binds_input ht⟩

end scenario
end JAgent
