import JAgent.Tools.Flights

/-! # Answers from the record

A call that finds its key recorded returns the recorded answer.  Every recorded completion is one
that a call of the run returned as a success (`Recorded`), so the answer comes from a call with the
same key; whether it answers the same request depends on what the key says of the input.

`hits_repeat` is about runs in which no ended call has the key of a lookup without asking the same
of the same tool.  Tools with an empty list of key fields break this at their second call. -/

namespace JAgent

namespace ToolExecutor
variable {W : Type} [Py] (x : ToolExecutor W)

/-- The call has returned a success. -/
def ReturnedSuccess (f : CallFlight W) : Prop :=
  ∃ r, f.proc.pc = .returned r ∧ r.status = .completed ∧ r.hasSemanticError = false

/-- Two calls ask the same of the same tool. -/
def sameRequest (c d : Call W) : Bool :=
  c.toolName = d.toolName && (Value.obj c.input).pyEq (.obj d.input)

/-- Every completion under a key is that of a call with this key that returned a success. -/
def Recorded (t : Traffic W) : Prop :=
  ∀ row ∈ t.shared.log, row.payload.eventType = .tool → ∀ k, row.idempotencyKey = some k →
    (∃ done, row.payload = .toolCompleted done) ∧
      ∃ g ∈ t.flights, x.key g.proc.call = some k ∧ ReturnedSuccess g

theorem Recorded.step {t u : Traffic W} {e : Happening W} (h : x.Recorded t)
    (hs : x.trafficStep t e = some u) : x.Recorded u := by
  intro row hrow htype k hk
  have hkey : row.idempotencyKey ≠ none := by simp [hk]
  rcases x.keyed_row_trafficStep hs hrow hkey with hold | ⟨p, hp⟩ | ⟨i, f, rfl, hf, hcase⟩
  · obtain ⟨hdone, g, hg, hkg, r, hr, hres⟩ := h row hold htype k hk
    obtain ⟨j, hj⟩ := List.mem_iff_getElem?.mp hg
    obtain ⟨g', hg', hcall, hsame⟩ := x.stays_trafficStep hs hj
    obtain rfl := hsame (by rw [hr]; rfl)
    exact ⟨hdone, _, List.mem_of_getElem? hg', hkg, r, hr, hres⟩
  · rw [hp] at htype
    cases htype
  · rcases hcase with ⟨_, hp, _⟩ | ⟨output, persisted, n, hpc, hp, hrk⟩
    · rw [hp] at htype
      cases htype
    · refine ⟨⟨_, hp⟩, ?_⟩
      have hlt := (List.getElem?_eq_some_iff.mp hf).1
      simp only [trafficStep, hf, hpc, CallPc.finished, Bool.false_eq_true, if_false] at hs
      obtain rfl := Option.some.inj hs
      refine ⟨_, List.mem_of_getElem? (List.getElem?_set_self hlt), ?_, ?_⟩
      · simp only [stepCall_call]
        rw [← hrk, hk]
      · simp only [ReturnedSuccess, stepCall, hpc]
        exact ⟨_, rfl, rfl, rfl⟩

/-- A call looks its key up only when every ended call of the run with the same key has asked the
same of the same tool. -/
def looksUpOwnRequest (t : Traffic W) : Happening W → Bool
  | .act i => match t.flights[i]? with
    | none => true
    | some f => !f.proc.pc.isLooking || x.key f.proc.call = none ||
        t.flights.all fun g => !g.proc.pc.finished || x.key g.proc.call ≠ x.key f.proc.call ||
          sameRequest g.proc.call f.proc.call
  | _ => true

/-- Whenever a call has been answered from the record, a call of the same tool with an equal
input has returned a success. -/
def HitsRepeat (t : Traffic W) : Prop :=
  ∀ f ∈ t.flights, ∀ r, f.proc.pc = .returned r → r.status = .idempotencyHit →
    ∃ g ∈ t.flights, sameRequest g.proc.call f.proc.call = true ∧ ReturnedSuccess g

/-- A call returns the recorded answer only from its lookup, and only when its key is recorded. -/
theorem looking_of_hit {p : Proc W} {s : Shared W} {r : CallResult} (hf : p.pc.finished = false)
    (h : (x.stepCall p s).1.pc = .returned r) (hr : r.status = .idempotencyHit) :
    p.pc.isLooking = true ∧ ∃ k row, x.key p.call = some k ∧
      s.log.findByIdempotencyKey .tool k = some row := by
  obtain ⟨c, tid, pc⟩ := p
  cases pc with
  | looking confirm =>
      refine ⟨rfl, ?_⟩
      simp only [stepCall, goto, afterMiss] at h
      split at h
      · simp only at h
        split at h <;> cases h
      next k hk =>
        split at h
        · simp only at h
          split at h <;> cases h
        next row hrow => exact ⟨k, row, hk, hrow⟩
  | invoking attempt =>
      have hway := x.onItsWay_afterInvoke ⟨c, tid, .invoking attempt⟩ attempt (c.toolFn s.world).1
      have hpc : x.afterInvoke ⟨c, tid, .invoking attempt⟩ attempt (c.toolFn s.world).1 =
          .returned r := h
      rw [hpc] at hway
      cases hway
  | returned r' => simp [CallPc.finished] at hf
  | raised e => simp [CallPc.finished] at hf
  | _ =>
      simp only [stepCall, goto, emit, afterCalled] at h
      repeat' split at h
      all_goals first
        | cases h; simp [result] at hr
        | cases h

theorem HitsRepeat.step {t u : Traffic W} {e : Happening W} (h : HitsRepeat t)
    (hrec : x.Recorded t) (hok : x.looksUpOwnRequest t e = true)
    (hs : x.trafficStep t e = some u) : HitsRepeat u := by
  -- a call that has returned a success is still there after the step
  have hkeep : ∀ c, (∃ g ∈ t.flights, sameRequest g.proc.call c = true ∧ ReturnedSuccess g) →
      ∃ g ∈ u.flights, sameRequest g.proc.call c = true ∧ ReturnedSuccess g := by
    rintro c ⟨g, hg, hsame, r, hr, hres⟩
    obtain ⟨j, hj⟩ := List.mem_iff_getElem?.mp hg
    obtain ⟨g', hg', _, heq⟩ := x.stays_trafficStep hs hj
    obtain rfl := heq (by rw [hr]; rfl)
    exact ⟨_, List.mem_of_getElem? hg', hsame, r, hr, hres⟩
  intro f hf r hr hhit
  obtain ⟨j, hj⟩ := List.mem_iff_getElem?.mp hf
  rcases x.flight_trafficStep hs hj with hold | ⟨c, rfl⟩ | ⟨f', rfl, hf', hfin, rfl, _⟩
  · exact hkeep _ (h f (List.mem_of_getElem? hold) r hr hhit)
  · cases hr
  · obtain ⟨hlook, k, row, hk, hrow⟩ := x.looking_of_hit hfin hr hhit
    obtain ⟨hmem, htype, hkey⟩ := Log.findByIdempotencyKey_some hrow
    obtain ⟨_, g, hg, hkg, r', hr', hres⟩ := hrec row hmem htype k hkey
    simp only [stepCall_call]
    apply hkeep
    refine ⟨g, hg, ?_, r', hr', hres⟩
    simp only [looksUpOwnRequest, hf', hlook, hk, Bool.not_true, Bool.false_or, reduceCtorEq,
      decide_false, List.all_eq_true, Bool.or_eq_true, decide_eq_true_eq,
      Bool.not_eq_true'] at hok
    rcases hok g hg with (hno | hne) | hsame
    · rw [hr'] at hno
      cases hno
    · exact absurd hkg hne
    · exact hsame

/-- **A recorded answer answers the same request**, in every run in which every lookup finds only
its own request among the ended calls with its key. -/
theorem hits_repeat {w : W} {t : Traffic W}
    (h : Lib.ReachesVia x.trafficStep (fun t e => x.looksUpOwnRequest t e = true) (idle w) t) :
    HitsRepeat t := by
  have hinit : x.Recorded (idle w) ∧ HitsRepeat (idle w) := by
    refine ⟨?_, ?_⟩
    · intro row hrow
      cases hrow
    · intro f hf
      cases hf
  have hinv : x.Recorded t ∧ HitsRepeat t :=
    h.invariant (I := fun t => x.Recorded t ∧ HitsRepeat t) hinit fun t u e _ hok ht hs =>
      ⟨ht.1.step x hs, ht.2.step x ht.1 hok hs⟩
  exact hinv.2

end ToolExecutor

/-! ### Two pages -/

section scenario
attribute [local instance] asciiPy

/-- The schema of the tool that opens a page. -/
def navigateSchema : Obj :=
  [("type", .str "object"),
    ("properties", .obj [("url", .obj [("type", .str "string")])]),
    ("required", .arr [.str "url"])]

/-- Open a page: the tool answers with the page it opened. -/
def navigate (url toolCallId : String) : Call ℕ :=
  { toolName := "browser_navigate"
    input := [("url", .str url)]
    td := browserMcpTool "browser_navigate" navigateSchema (policyFor "browser_navigate" false)
    toolFn := fun n =>
      (.ok (.obj [("success", .bool true), ("content", .arr [.str ("opened " ++ url)])]), n + 1)
    toolCallId, confirmationId := "c" }

/-- The call has returned a result with this status. -/
def returnedWith (status : ExecutionStatus) : CallPc → Bool
  | .returned r => r.status = status
  | _ => false

theorem returnedWith_iff {status : ExecutionStatus} {pc : CallPc} :
    returnedWith status pc = true ↔ ∃ r, pc = .returned r ∧ r.status = status := by
  cases pc <;> simp [returnedWith]

/-- The second page is never opened: the call is answered with what the first page gave. -/
theorem second_page_answered_with_first : ∃ t,
    Lib.Reaches remoteExecutor.trafficStep (ToolExecutor.idle 0) t ∧
      ¬ToolExecutor.HitsRepeat t := by
  let moves : List (Happening ℕ) := .call (navigate "https://example.com/a" "t1") ::
    .call (navigate "https://example.com/b" "t2") ::
      (List.replicate 6 (Happening.act 0) ++ [Happening.act 1, .act 1])
  obtain ⟨t, ht, hp⟩ := Lib.exists_reaches_of_run remoteExecutor.trafficStep moves
    (ToolExecutor.idle 0) (fun t => t.shared.world = 1 && t.flights.any fun f =>
      returnedWith .idempotencyHit f.proc.pc &&
      t.flights.all fun g => !ToolExecutor.sameRequest g.proc.call f.proc.call ||
        !returnedWith .completed g.proc.pc)
    (by decide +kernel)
  simp only [Bool.and_eq_true, List.any_eq_true, List.all_eq_true] at hp
  obtain ⟨_, f, hf, hhit, hall⟩ := hp
  refine ⟨t, ht, fun h => ?_⟩
  obtain ⟨r, hr, hstatus⟩ := returnedWith_iff.mp hhit
  obtain ⟨g, hg, hsame, r', hr', hdone, _⟩ := h f hf r hr hstatus
  have hg' := hall g hg
  rw [hsame, returnedWith_iff.mpr ⟨r', hr', hdone⟩] at hg'
  cases hg'

/-- The same page twice: the recorded answer is the answer to an equal call. -/
theorem same_page_answered_again : ∃ t,
    Lib.ReachesVia remoteExecutor.trafficStep
      (fun t e => remoteExecutor.looksUpOwnRequest t e = true) (ToolExecutor.idle 0) t ∧
      (∃ f ∈ t.flights, ∃ r, f.proc.pc = .returned r ∧ r.status = .idempotencyHit) ∧
      ToolExecutor.HitsRepeat t := by
  let moves : List (Happening ℕ) := .call (navigate "https://example.com/a" "t1") ::
    .call (navigate "https://example.com/a" "t2") ::
      (List.replicate 6 (Happening.act 0) ++ [Happening.act 1, .act 1])
  obtain ⟨t, ht, hp⟩ := Lib.exists_reachesVia_of_run remoteExecutor.trafficStep
    remoteExecutor.looksUpOwnRequest moves (ToolExecutor.idle 0)
    (fun t => t.flights.any fun f => returnedWith .idempotencyHit f.proc.pc) (by decide +kernel)
  obtain ⟨f, hf, hhit⟩ := List.any_eq_true.mp hp
  exact ⟨t, ht, ⟨f, hf, returnedWith_iff.mp hhit⟩, remoteExecutor.hits_repeat ht⟩

end scenario
end JAgent
