import JAgent.Scheduler.Executed

/-! # The event log and the results in memory

A step of a layer is recorded twice: its result goes to the results in memory, and an event goes
to the log, from which a resumed run rebuilds the result.  Three places write both: the settling
of a layer, the gate that skips a step, and the retry after a confirmation.

The settling and the gate write the event of the state they store.  The retry does not: it
announces every finished result as "completed", also a cached one, and every other result as
"failed", also an unsuccessful one.  As long as no retry ends with a cached or an unsuccessful
result, the two records agree whenever a layer and its confirmations are over
(`log_agrees_with_memory`). -/

namespace JAgent

/-! ### The condition -/

/-- Neither a cached result nor one with a semantic error. -/
def recordedAsIs (r : ToolExecutionResult) : Bool :=
  r.status ≠ .idempotencyHit && !(r.status = .completed && r.hasSemanticError)

/-- The answers of the Tool Layer that are recorded with their own state. -/
def recordsAlike (s : State) (c : Choice) : Bool :=
  match s.pc, c with
  | .inLayer _ _ (.executing _ _), .ret _ (.ok r) => namesConfirmation r
  | .inLayer _ _ (.retrying _ _ _), .ret _ (.ok r) => namesConfirmation r && recordedAsIs r
  | _, _ => true

/-- The log gives the step the state, and the verdict "normal", of the result in memory. -/
def AgreesAt [Py] (s : State) (sid : String) : Prop :=
  ∃ r r', s.results.get? sid = some r ∧
    (rebuildResultsFromEvidence (foldEvidence s.log)).get? sid = some r' ∧
    r'.execState = r.execState ∧ r'.stepNormal = r.stepNormal

/-- When a layer and its confirmations are over, log and memory agree on every step of the round
so far. -/
def LogAgrees [Py] (s : State) : Prop :=
  ∀ k layer ph, s.pc = .inLayer k layer ph → LayerOver ph →
    ∀ sid ∈ k.done.flatten ++ layer, AgreesAt s sid

/-! ### Results that are recorded as they are -/

/-- A result whose state the settling of a layer announces, or that waits for a confirmation. -/
def Reportable (plan : DagPlan) (sid : String) (r : StepResult) : Prop :=
  match r.execState with
  | .completed | .idempotent => True
  | .unsuccessful => r.probe = (stepOr plan sid).probe
  | .failed | .skipped => r.confirmationId = none
  | .pending => r.confirmationId.isSome = true
  | .running | .cancelled => False

section reportable
variable {plan : DagPlan} {sid : String}

theorem dispatch_reportable [Py] {r : ToolExecutionResult} (h : namesConfirmation r = true) :
    Reportable plan sid (dispatch (stepOr plan sid) r) := by
  unfold namesConfirmation at h
  unfold dispatch
  cases hs : r.status <;> simp only [hs] at h ⊢
  case completed => split_ifs <;> simp [Reportable]
  case idempotencyHit => split_ifs <;> simp [Reportable]
  case confirmationNeeded => simpa [Reportable] using h
  all_goals simp [Reportable]

theorem dispatch_recordedAsIs [Py] {step : DagStep} {r : ToolExecutionResult}
    (h : recordedAsIs r = true) :
    (dispatch step r).execState ≠ .idempotent ∧ (dispatch step r).execState ≠ .unsuccessful := by
  unfold recordedAsIs at h
  unfold dispatch
  cases hs : r.status <;> simp_all

theorem prepareStep_reportable [Py] {registry : Registry} {results : Results} {r : StepResult}
    (h : prepareStep registry plan results sid = .returned r) : Reportable plan sid r := by
  unfold prepareStep at h
  repeat' split at h
  all_goals first | (cases h; simp [Reportable, failedResult, skippedResult]) | cases h

/-- **The settling of a layer announces the state it stores**, or defers it to a confirmation. -/
theorem settle_reports (planId : String) (layerIdx : ℕ) (toolName : String) {r : StepResult}
    (h : Reportable plan sid r) :
    (r.execState ≠ .pending ∧ (settle planId layerIdx toolName sid (.ok r)).pending = none ∧
      ∃ e, (settle planId layerIdx toolName sid (.ok r)).event = some e ∧
        e.outcome = some (sid, r.execState)) ∨
    ∃ cid, (settle planId layerIdx toolName sid (.ok r)).pending = some cid ∧
      (settle planId layerIdx toolName sid (.ok r)).event = none := by
  unfold Reportable at h
  unfold settle
  cases hs : r.execState <;> simp only [hs] at h ⊢
  case pending =>
    obtain ⟨cid, hcid⟩ := Option.isSome_iff_exists.mp h
    rw [hcid]
    exact .inr ⟨cid, rfl, rfl⟩
  case failed =>
    rw [h]
    exact .inl ⟨by simp, rfl, _, rfl, rfl⟩
  case skipped =>
    rw [h]
    exact .inl ⟨by simp, rfl, _, rfl, rfl⟩
  all_goals exact .inl ⟨by simp, trivial, _, rfl, rfl⟩

end reportable

/-! ### The invariant of a round -/

/-- The steps of a layer that are not recorded yet. -/
def Phase.unrecorded (layer : List String) : Phase → List String
  | .gating _ toSkip | .starting _ toSkip => layer.filter fun sid => !toSkip.contains sid
  | .executing toRun _ => toRun
  | .settling todo pending _ => pending.map Prod.fst ++ todo.map Prod.fst
  | .confirming todo _ | .paused todo _ | .retrying todo _ _ | .retried todo _ _ => todo.map Prod.fst

theorem LayerOver.unrecorded {layer : List String} {ph : Phase} (h : LayerOver ph) :
    ph.unrecorded layer = [] := by
  cases h <;> rfl

/-- The raw results a phase holds are reportable; a retried one is recorded as it is. -/
def PhaseReports (plan : DagPlan) (layer : List String) : Phase → Prop
  | .starting todo _ => todo ⊆ layer
  | .executing _ flights =>
    ∀ sid r, flights.get? sid = some (.returned (.ok r)) → Reportable plan sid r
  | .settling todo _ _ => ∀ sid r, (sid, .ok r) ∈ todo → Reportable plan sid r
  | .retried todo _ r => ∀ x ∈ todo.head?, Reportable plan x.1 r ∧
      r.execState ≠ .idempotent ∧ r.execState ≠ .unsuccessful
  | _ => True

section invariant
variable [Py] {cfg : Config} {s t : State} {c : Choice}

/-- The step has a result, and the log records its state. -/
def Noted (s : State) (sid : String) : Prop :=
  ∃ r ev, s.results.get? sid = some r ∧ (foldEvidence s.log).get? sid = some ev ∧
    ev.execState = r.execState ∧ r.execState ≠ .pending ∧ Reportable s.plan sid r

/-- The log records the probe flag of every step of the plan. -/
def Probes (s : State) : Prop :=
  ∀ p ∈ s.plan.steps, ∃ ev, (foldEvidence s.log).get? p.id = some ev ∧ ev.probe = p.probe

/-- What holds inside a layer. -/
structure LayerNoted (s : State) (k : Round) (layer : List String) (ph : Phase) : Prop where
  probes : Probes s
  done : ∀ sid ∈ k.done.flatten, Noted s sid
  recorded : ∀ sid ∈ layer, sid ∉ ph.unrecorded layer → Noted s sid
  reports : PhaseReports s.plan layer ph

/-- The invariant of a round. -/
structure NotedInv (s : State) : Prop where
  layers : ∀ k, s.pc = .layers k → Probes s ∧ ∀ sid ∈ k.done.flatten, Noted s sid
  inLayer : ∀ k layer ph, s.pc = .inLayer k layer ph → LayerNoted s k layer ph

theorem NotedInv.of_other (h1 : ∀ k, s.pc ≠ .layers k)
    (h2 : ∀ k layer ph, s.pc ≠ .inLayer k layer ph) : NotedInv s :=
  ⟨fun k h => absurd h (h1 k), fun k layer ph h => absurd h (h2 k layer ph)⟩

theorem NotedInv.of_inLayer {k : Round} {layer : List String} {ph : Phase}
    (hpc : s.pc = .inLayer k layer ph) (h : LayerNoted s k layer ph) : NotedInv s := by
  refine ⟨fun k' h' => ?_, fun k' layer' ph' h' => ?_⟩
  · rw [hpc] at h'
    cases h'
  · rw [hpc] at h'
    cases h'
    exact h

/-- A noted step of the plan has the same state and the same verdict in log and memory. -/
theorem Noted.agreesAt {sid : String} (h : Noted s sid) (hp : Probes s)
    (hmem : sid ∈ stepIds s.plan.steps) : AgreesAt s sid := by
  obtain ⟨r, ev, hr, hev, hst, hne, hrep⟩ := h
  obtain ⟨ev', hev', hprobe⟩ := hp _ (stepOr_mem hmem)
  rw [stepOr_id, hev] at hev'
  cases hev'
  refine ⟨r, rebuildResult sid ev, hr, get?_rebuildResultsFromEvidence hev, ?_⟩
  unfold Reportable at hrep
  unfold StepResult.stepNormal rebuildResult
  simp only [hst, hprobe]
  cases hs : r.execState <;> simp_all [evidenceState, execStateIsNormal]

/-! ### Events and results of one move -/

/-- An event that says nothing about the step leaves it noted. -/
theorem Noted.frame {sid : String} {e : Option Event} (h : Noted s sid) (hplan : t.plan = s.plan)
    (hres : t.results.get? sid = s.results.get? sid) (hlog : t.log = s.log ++ e.toList)
    (he : ∀ e' ∈ e, e'.isBlueprint = false ∧ e'.subject ≠ some sid) : Noted t sid := by
  obtain ⟨r, ev, hr, hev, hst, hne, hrep⟩ := h
  cases e with
  | none =>
      rw [Option.toList_none, List.append_nil] at hlog
      exact ⟨r, ev, by rw [hres, hr], by rw [hlog, hev], hst, hne, by rw [hplan]; exact hrep⟩
  | some e =>
      obtain ⟨hb, hsub⟩ := he e rfl
      have hframe : Framed (applyEvent (foldEvidence s.log) (1 + s.log.length) e) e sid ev :=
        applyEvent_frame hb hev
      obtain ⟨ev', hev', _, hst'⟩ := hframe
      refine ⟨r, ev', by rw [hres, hr], ?_, by rw [hst' hsub, hst], hne, by rw [hplan]; exact hrep⟩
      rw [hlog, Option.toList_some, foldEvidence_append]
      exact hev'

theorem Probes.frame {e : Option Event} (h : Probes s) (hplan : t.plan = s.plan)
    (hlog : t.log = s.log ++ e.toList) (he : ∀ e' ∈ e, e'.isBlueprint = false) : Probes t := by
  intro p hp
  rw [hplan] at hp
  obtain ⟨ev, hev, hprobe⟩ := h p hp
  cases e with
  | none =>
      rw [Option.toList_none, List.append_nil] at hlog
      exact ⟨ev, by rw [hlog, hev], hprobe⟩
  | some e =>
      have hframe : Framed (applyEvent (foldEvidence s.log) (1 + s.log.length) e) e p.id ev :=
        applyEvent_frame (he e rfl) hev
      obtain ⟨ev', hev', hprobe', _⟩ := hframe
      refine ⟨ev', ?_, by rw [hprobe', hprobe]⟩
      rw [hlog, Option.toList_some, foldEvidence_append]
      exact hev'

omit [Py] in
/-- A layer repeats no step of an earlier layer. -/
theorem not_mem_done {k : Round} {layer : List String} {ph : Phase} (hl : InLayer s k layer ph)
    {sid : String} (h : sid ∈ layer) : sid ∉ k.done.flatten := by
  obtain ⟨external, hsort⟩ := hl.sorted
  intro hdone
  exact (List.nodup_append.mp (nodup_of_topologicalSort hsort rfl)).2.2 sid hdone sid h rfl

section moves
variable {k : Round} {layer : List String} {ph ph' : Phase}

/-- A move that stores no result and writes at most an event about an unrecorded step. -/
theorem LayerNoted.still {e : Option Event} (h : LayerNoted s k layer ph) (hl : InLayer s k layer ph)
    (hplan : t.plan = s.plan) (hres : t.results = s.results) (hlog : t.log = s.log ++ e.toList)
    (he : ∀ e' ∈ e, e'.isBlueprint = false ∧
      ∀ sid, e'.subject = some sid → sid ∈ layer ∧ sid ∈ ph.unrecorded layer)
    (hun : ph'.unrecorded layer = ph.unrecorded layer) (hrep : PhaseReports s.plan layer ph') :
    LayerNoted t k layer ph' := by
  have hkeep : ∀ sid, (∀ e' ∈ e, e'.subject ≠ some sid) → Noted s sid → Noted t sid :=
    fun sid hne hn => hn.frame hplan (by rw [hres]) hlog fun e' he' => ⟨(he e' he').1, hne e' he'⟩
  refine ⟨h.probes.frame hplan hlog fun e' he' => (he e' he').1, fun sid hsid => ?_,
    fun sid hsid hrec => ?_, by rw [hplan]; exact hrep⟩
  · refine hkeep sid (fun e' he' hsub => ?_) (h.done sid hsid)
    exact not_mem_done hl ((he e' he').2 sid hsub).1 hsid
  · rw [hun] at hrec
    refine hkeep sid (fun e' he' hsub => ?_) (h.recorded sid hsid hrec)
    exact hrec ((he e' he').2 sid hsub).2

/-- A move that stores the result of a step and announces its state, or leaves it unrecorded. -/
theorem LayerNoted.store {e : Option Event} {sid : String} {r : StepResult}
    (h : LayerNoted s k layer ph) (hl : InLayer s k layer ph) (hplan : t.plan = s.plan)
    (hres : t.results = s.results.set sid r) (hlog : t.log = s.log ++ e.toList) (hsid : sid ∈ layer)
    (he : (∃ e', e = some e' ∧ e'.outcome = some (sid, r.execState) ∧ r.execState ≠ .pending ∧
      Reportable s.plan sid r) ∨ (e = none ∧ sid ∈ ph'.unrecorded layer))
    (hun : ∀ x ∈ ph.unrecorded layer, x = sid ∨ x ∈ ph'.unrecorded layer)
    (hrep : PhaseReports s.plan layer ph') : LayerNoted t k layer ph' := by
  have hev : ∀ e' ∈ e, e'.isBlueprint = false ∧ e'.subject = some sid := by
    intro e' he'
    rcases he with ⟨e₁, rfl, hout, _⟩ | ⟨rfl, _⟩
    · cases he'
      exact Event.subject_of_outcome hout
    · cases he'
  have hkeep : ∀ x, x ≠ sid → Noted s x → Noted t x := by
    intro x hx hn
    refine hn.frame hplan ?_ hlog fun e' he' => ⟨(hev e' he').1, ?_⟩
    · rw [hres, Lib.Dict.get?_set, if_neg (Ne.symm hx)]
    · rw [(hev e' he').2]
      exact fun heq => hx (Option.some.inj heq).symm
  refine ⟨h.probes.frame hplan hlog fun e' he' => (hev e' he').1, fun x hx => ?_,
    fun x hx hrec => ?_, by rw [hplan]; exact hrep⟩
  · refine hkeep x ?_ (h.done x hx)
    rintro rfl
    exact not_mem_done hl hsid hx
  · by_cases hxs : x = sid
    · subst hxs
      rcases he with ⟨e', rfl, hout, hne, hr⟩ | ⟨_, hmem⟩
      · obtain ⟨ev, hget, hst⟩ : ∃ ev, (applyEvent (foldEvidence s.log) (1 + s.log.length) e').get? x =
          some ev ∧ ev.execState = r.execState := applyEvent_outcome hout
        refine ⟨r, ev, by rw [hres, Lib.Dict.get?_set, if_pos rfl], ?_, hst, hne, by rw [hplan]; exact hr⟩
        rw [hlog, Option.toList_some, foldEvidence_append]
        exact hget
      · exact absurd hmem hrec
    · refine hkeep x hxs (h.recorded x hx fun hmem => ?_)
      rcases hun x hmem with rfl | hmem
      · exact hxs rfl
      · exact hrec hmem

/-- The layer is over: its steps join those of the earlier layers. -/
theorem LayerNoted.over (h : LayerNoted s k layer ph) (hover : LayerOver ph) :
    ∀ sid ∈ k.done.flatten ++ layer, Noted s sid := by
  intro sid hsid
  rcases List.mem_append.mp hsid with hdone | hlayer
  · exact h.done sid hdone
  · refine h.recorded sid hlayer ?_
    rw [hover.unrecorded]
    exact List.not_mem_nil

/-- A move that changes no record. -/
theorem LayerNoted.quiet (h : LayerNoted s k layer ph) (hl : InLayer s k layer ph)
    (hplan : t.plan = s.plan) (hres : t.results = s.results) (hlog : t.log = s.log)
    (hun : ph'.unrecorded layer = ph.unrecorded layer) (hrep : PhaseReports s.plan layer ph') :
    LayerNoted t k layer ph' :=
  h.still (e := none) hl hplan hres (by simp [hlog]) (by simp) hun hrep

/-- Launching a step changes no record, whether it calls the Tool Layer or returns at once. -/
theorem LayerNoted.launch {sid : String} {onCall : DagStep → Phase} {onReturn : StepResult → Phase}
    (h : LayerNoted s k layer ph) (hl : InLayer s k layer ph)
    (hcall : ∀ step, (onCall step).unrecorded layer = ph.unrecorded layer ∧
      PhaseReports s.plan layer (onCall step))
    (hret : ∀ r, Reportable s.plan sid r → Refused r →
      (onReturn r).unrecorded layer = ph.unrecorded layer ∧ PhaseReports s.plan layer (onReturn r)) :
    NotedInv (JAgent.launch cfg s sid (fun step => .inLayer k layer (onCall step))
      fun r => .inLayer k layer (onReturn r)) := by
  unfold JAgent.launch
  split
  next r hr =>
    obtain ⟨hun, hrep⟩ := hret r (prepareStep_reportable hr) (prepareStep_returned hr)
    exact .of_inLayer rfl (h.quiet hl rfl rfl rfl hun hrep)
  next step input _ =>
    obtain ⟨hun, hrep⟩ := hcall step
    exact .of_inLayer rfl (h.quiet hl rfl rfl rfl hun hrep)

omit [Py] in
/-- Noting a returned result in the table of flights. -/
theorem reports_set {plan : DagPlan} {toRun : List String} {flights : Lib.Dict String Flight}
    {sid : String} {raw : Raw} (h : PhaseReports plan layer (.executing toRun flights))
    (hr : ∀ r, raw = .ok r → Reportable plan sid r) :
    PhaseReports plan layer (.executing toRun (flights.set sid (.returned raw))) := by
  intro sid' r hf
  rcases Lib.Dict.get?_set_cases hf with ⟨rfl, he⟩ | ⟨_, hf⟩
  · cases he
    exact hr r rfl
  · exact h sid' r hf

theorem NotedInv.afterLayer {ok : Bool} (h : LayerNoted s k layer ph) (hover : LayerOver ph) :
    NotedInv { s with pc := JAgent.afterLayer cfg s k layer ok } := by
  unfold JAgent.afterLayer healPc
  split_ifs
  · refine ⟨?_, by simp⟩
    rintro k' ⟨⟩
    refine ⟨h.probes, fun sid hsid => ?_⟩
    rw [List.flatten_append, List.flatten_singleton] at hsid
    exact h.over hover sid hsid
  · exact .of_other (by simp) (by simp)
  · exact .of_other (by simp) (by simp)

/-- Settling a step of the layer. -/
theorem LayerNoted.settle {sid : String} {raw : Raw} {todo : List (String × Raw)}
    {pending : List (String × String)} {failed : Bool} {pc : Pc}
    (h : LayerNoted s k layer (.settling ((sid, raw) :: todo) pending failed))
    (hl : InLayer s k layer (.settling ((sid, raw) :: todo) pending failed)) (failed' : Bool) :
    LayerNoted { settleState s k sid raw with pc := pc } k layer (.settling todo
      (match (JAgent.settle k.planId k.done.length (stepOr s.plan sid).tool sid raw).pending with
        | some cid => pending ++ [(sid, cid)]
        | none => pending) failed') := by
  have hsid : sid ∈ layer := by
    apply hl.live.subset
    simp [Phase.live]
  have hrest : ∀ x r, (x, .ok r) ∈ todo → Reportable s.plan x r := fun x r hmem =>
    h.reports x r (List.mem_cons_of_mem _ hmem)
  refine h.store hl rfl rfl rfl hsid ?_ (fun x hx => ?_) hrest
  · cases raw with
    | error msg =>
        refine .inl ⟨_, rfl, rfl, ?_, ?_⟩ <;> simp [JAgent.settle, failedResult, Reportable]
    | ok r =>
        have hr := h.reports sid r List.mem_cons_self
        rw [settle_result]
        rcases settle_reports k.planId k.done.length (stepOr s.plan sid).tool hr with
          ⟨hne, _, e, he, hout⟩ | ⟨cid, hp, he⟩
        · exact .inl ⟨e, he, hout, hne, hr⟩
        · refine .inr ⟨he, ?_⟩
          simp [hp, Phase.unrecorded]
  · simp only [Phase.unrecorded, List.map_cons, List.mem_append, List.mem_cons] at hx ⊢
    rcases hx with hx | hx | hx
    · refine .inr (.inl ?_)
      split
      · rw [List.map_append]
        exact List.mem_append_left _ hx
      · exact hx
    · exact .inl hx
    · exact .inr (.inr hx)

/-- Recording a retry that is recorded as it is. -/
theorem LayerNoted.settleRetry {sid cid : String} {todo : List (String × String)} {retries : ℕ}
    {r : StepResult} {pc : Pc} (h : LayerNoted s k layer (.retried ((sid, cid) :: todo) retries r))
    (hl : InLayer s k layer (.retried ((sid, cid) :: todo) retries r))
    (hdone : (!r.finished && r.confirmationId.isSome) = false) :
    LayerNoted { JAgent.settleRetry s k sid r with pc := pc } k layer (.confirming todo 0) := by
  obtain ⟨hr, hidem, hunsucc⟩ := h.reports (sid, cid) rfl
  have hsid : sid ∈ layer := hl.live.subset List.mem_cons_self
  have hne : r.execState ≠ .pending := by
    intro hp
    unfold Reportable at hr
    simp [StepResult.finished, hp] at hr hdone
    simp [hdone] at hr
  refine h.store hl rfl rfl (e := some _) rfl hsid (.inl ⟨_, rfl, ?_, hne, hr⟩) (fun x hx => ?_) trivial
  · unfold Reportable at hr
    cases hs : r.execState <;>
      simp_all [StepResult.finished, Event.outcome]
  · simpa [Phase.unrecorded] using hx

/-- **One move inside a layer keeps log and memory together.** -/
theorem NotedInv.phaseStep (h : LayerNoted s k layer ph) (hl : InLayer s k layer ph)
    (hraw : PhaseRaw (Called s) ph) (hpc : s.pc = .inLayer k layer ph)
    (hok : recordsAlike s c = true) (hs : PhaseStep cfg s k layer ph c t) : NotedInv t := by
  cases hs with
  | gateDone toSkip => exact .of_inLayer rfl (h.quiet hl rfl rfl rfl rfl (List.Subset.refl layer))
  | gatePass todo toSkip _ => exact .of_inLayer rfl (h.quiet hl rfl rfl rfl rfl trivial)
  | gateSkip todo toSkip _ _ =>
      have hsid := hl.ungated List.mem_cons_self
      refine .of_inLayer rfl (h.store hl rfl rfl (e := some _) rfl hsid
        (.inl ⟨_, rfl, rfl, ?_, ?_⟩) (fun x hx => ?_) trivial)
      · simp [skippedResult]
      · simp [skippedResult, Reportable]
      · simp only [Phase.unrecorded, List.mem_filter, Bool.not_eq_true', List.contains_eq_mem,
          decide_eq_false_iff_not, List.mem_append, List.mem_singleton] at hx ⊢
        tauto
  | startDone toSkip =>
      exact .of_inLayer rfl (h.quiet hl rfl rfl rfl rfl (fun sid r hf => by cases hf))
  | @startPass sid todo toSkip _ =>
      have htodo : sid :: todo ⊆ layer := h.reports
      exact .of_inLayer rfl (h.quiet hl rfl rfl rfl rfl fun x hx => htodo (List.mem_cons_of_mem _ hx))
  | @start sid todo toSkip step hskip _ =>
      have htodo : sid :: todo ⊆ layer := h.reports
      have hsid : sid ∈ layer := htodo List.mem_cons_self
      refine .of_inLayer rfl (h.still (e := some _) hl rfl rfl rfl ?_ rfl
        fun x hx => htodo (List.mem_cons_of_mem _ hx))
      rintro e ⟨⟩
      refine ⟨rfl, ?_⟩
      rintro x ⟨⟩
      exact ⟨hsid, by simpa [Phase.unrecorded, hsid] using hskip⟩
  | call _ _ =>
      refine h.launch hl (fun step => ⟨rfl, ?_⟩) (fun r hr _ => ⟨rfl, ?_⟩)
      · intro x r hf
        rcases Lib.Dict.get?_set_cases hf with ⟨_, he⟩ | ⟨_, hf⟩
        · cases he
        · exact h.reports x r hf
      · refine reports_set h.reports fun r' he => ?_
        cases he
        exact hr
  | @ret toRun flights sid step answer hf =>
      refine .of_inLayer rfl (h.quiet hl rfl rfl rfl rfl (reports_set h.reports fun r he => ?_))
      cases he
      rw [(hraw.1 sid step hf).2.1]
      simp only [recordsAlike, hpc] at hok
      exact dispatch_reportable hok
  | retError msg _ =>
      refine .of_inLayer rfl (h.quiet hl rfl rfl rfl rfl (reports_set h.reports fun r he => ?_))
      cases he
  | gather hids hget =>
      have hmove : PhaseMove layer _ _ := .gather hids hget
      refine .of_inLayer rfl (h.quiet hl rfl rfl rfl hmove.waiting_eq ?_)
      intro sid r hmem
      exact h.reports sid r (hget sid _ hmem)
  | settled failed => exact .afterLayer h (.settled failed)
  | suspend failed _ =>
      refine .of_inLayer rfl (h.quiet hl rfl rfl rfl ?_ trivial)
      simp [Phase.unrecorded]
  | settle sid raw todo pending failed => exact .of_inLayer rfl (h.settle hl _)
  | confirmed retries => exact .afterLayer h (.confirmed retries)
  | pause sid cid todo _ =>
      refine .of_inLayer rfl (h.still (e := some _) hl rfl rfl rfl ?_ rfl trivial)
      rintro e ⟨⟩
      exact ⟨rfl, fun x hx => by cases hx⟩
  | resume sid cid todo retries =>
      refine h.launch hl (fun step => ⟨rfl, trivial⟩) (fun r hr href => ⟨rfl, ?_⟩)
      rintro x ⟨⟩
      refine ⟨hr, ?_, ?_⟩ <;> rcases href with hst | hst <;> simp [hst]
  | retryRet todo retries step answer =>
      refine .of_inLayer rfl (h.quiet hl rfl rfl rfl rfl fun x hx => ?_)
      simp only [recordsAlike, hpc, Bool.and_eq_true] at hok
      have hstep := (hraw x hx).2.1
      refine ⟨?_, dispatch_recordedAsIs hok.2⟩
      rw [hstep]
      exact dispatch_reportable hok.1
  | again sid cid todo retries _ => exact .of_inLayer rfl (h.quiet hl rfl rfl rfl rfl trivial)
  | settleRetry sid cid todo retries hagain => exact .of_inLayer rfl (h.settleRetry hl hagain)
  | giveUp | cancelConfirming | cancelPaused | timeout | retryError => exact .of_other (by simp) (by simp)

end moves

/-! ### Every move -/

/-- The plan event of an entry records the probe flags of the plan. -/
theorem probes_enter {planId intent summary : String} {n : ℕ}
    (hv : validate cfg.registry s.plan [] [] = []) (hplan : t.plan = s.plan)
    (hlog : t.log = s.log ++ [Event.planCreated planId intent summary n (planStepsToPayload s.plan)]) :
    Probes t := by
  intro p hp
  rw [hplan] at hp
  have hids : (planStepsToPayload s.plan).map StepPayload.stepId = stepIds s.plan.steps := by
    unfold planStepsToPayload stepIds
    rw [List.map_map]
    rfl
  have hne : ∀ q ∈ planStepsToPayload s.plan, q.stepId ≠ "" := by
    intro q hq
    obtain ⟨p', hp', rfl⟩ := List.mem_map.mp hq
    exact id_ne_of_validate hv hp'
  rw [hlog, foldEvidence_append]
  exact applyBlueprint_probe (hids ▸ nodup_of_validate hv) hne
    ⟨p.id, p.tool, p.input, p.dependsOn, p.description, p.probe⟩
    (List.mem_map.mpr ⟨p, hp, rfl⟩)

theorem NotedInv.entryMove (hs : EntryMove cfg s c t) : NotedInv t := by
  cases hs with
  | exhausted planId _ => exact .of_other (by simp) (by simp)
  | unsorted planId _ => exact .of_other (by simp) (by simp)
  | start planId _ hv _ =>
      refine ⟨?_, by simp⟩
      rintro k ⟨⟩
      exact ⟨probes_enter hv rfl rfl, fun sid hsid => by cases hsid⟩
  | invalid planId _ => exact .of_other (by simp) (by simp)

theorem NotedInv.layersMove {k : Round} (h : NotedInv s) (hpc : s.pc = .layers k)
    (hs : LayersMove cfg s k c t) : NotedInv t := by
  obtain ⟨hp, hdone⟩ := h.layers k hpc
  cases hs with
  | finish _ =>
      unfold finishLayers healPc
      simp only
      split_ifs <;> exact .of_other (by simp) (by simp)
  | next _ =>
      refine .of_inLayer rfl ⟨hp, hdone, fun sid hsid hrec => ?_, trivial⟩
      exact absurd hsid (by simpa [Phase.unrecorded] using hrec)
  | cancel _ => exact .of_other (by simp) (by simp)

/-- Events of other components announce nothing about a step. -/
theorem NotedInv.foreign {e : Event} (h : NotedInv s) (he : isForeign e = true) :
    NotedInv (s.emit [e]) := by
  have hb : e.isBlueprint = false ∧ e.subject = none := by
    cases e <;> first | exact ⟨rfl, rfl⟩ | cases he
  have hprobes : Probes s → Probes (s.emit [e]) := fun hp =>
    hp.frame (e := some e) rfl rfl fun e' he' => by
      cases he'
      exact hb.1
  have hnoted : ∀ sid, Noted s sid → Noted (s.emit [e]) sid := fun sid hn =>
    hn.frame (e := some e) rfl rfl rfl fun e' he' => by
      cases he'
      exact ⟨hb.1, by simp [hb.2]⟩
  refine ⟨fun k hpc => ?_, fun k layer ph hpc => ?_⟩
  · obtain ⟨hp, hdone⟩ := h.layers k hpc
    exact ⟨hprobes hp, fun sid hsid => hnoted sid (hdone sid hsid)⟩
  · have hl := h.inLayer k layer ph hpc
    exact ⟨hprobes hl.probes, fun sid hsid => hnoted sid (hl.done sid hsid),
      fun sid hsid hrec => hnoted sid (hl.recorded sid hsid hrec), hl.reports⟩

/-- Outside the layers no move enters one. -/
theorem outside_of_trans (ht : Trans cfg s c t) (h0 : s.pc ≠ .entry) (h1 : ∀ k, s.pc ≠ .layers k)
    (h2 : ∀ k layer ph, s.pc ≠ .inLayer k layer ph) :
    (∀ k, t.pc ≠ .layers k) ∧ ∀ k layer ph, t.pc ≠ .inLayer k layer ph := by
  cases ht with
  | quiet hp _ _ => constructor <;> (intros; rintro rfl; cases hp)
  | foreign _ => exact ⟨h1, h2⟩
  | enter hpc _ _ _ => exact absurd hpc h0
  | nextLayer hpc _ => exact absurd hpc (h1 _)
  | move hpc _ _ | gateSkip hpc _ _ | call hpc _ _ | settle hpc | settleRetry hpc
  | layerDone hpc _ => exact absurd hpc (h2 _ _ _)
  | accept _ _ _ hpc' =>
      rcases hpc' with hp | ⟨_, site, k, rfl⟩
      · constructor <;> (intros; rintro rfl; cases hp)
      · exact ⟨by simp, by simp⟩
  | mergeAdopt _ | announce _ _ => exact ⟨by simp [adopt], by simp [adopt]⟩
  | _ => exact ⟨by simp, by simp⟩

/-- **One move keeps log and memory together.** -/
theorem NotedInv.step (h : NotedInv s) (hr : RoundInv s) (hraw : RawInv s)
    (hok : recordsAlike s c = true) (hs : step cfg s c = some t) : NotedInv t := by
  have ht := step_trans hs
  cases move_of_step hs with
  | foreign hf _ => exact h.foreign hf
  | entry _ hm => exact .entryMove hm
  | layers hpc hm => exact h.layersMove hpc hm
  | phase hpc hm =>
      exact .phaseStep (h.inLayer _ _ _ hpc) (hr.inLayer _ _ _ hpc) (hraw _ _ _ hpc) hpc hok hm
  | repair hpc | revise hpc | merge hpc | announce hpc | dispose hpc | fail hpc | finish hpc =>
      obtain ⟨h1, h2⟩ := outside_of_trans ht (by simp [hpc]) (by simp [hpc]) (by simp [hpc])
      exact .of_other h1 h2

/-- **Log and memory agree, as long as no retry ends with a cached or an unsuccessful result.**  In
every run, from any results and log, whose answers to retries are recorded with their own state,
the results rebuilt from the log have the state and the verdict "normal" of the results in memory,
for every step of the round, whenever a layer and its confirmations are over. -/
theorem log_agrees_with_memory (plan : DagPlan) (results : Results)
    (contracts : List DeliveryContract) (log : List Event) {s : State}
    (h : Lib.ReachesVia (step cfg) (fun s c => recordsAlike s c = true)
      (State.start plan results contracts log []) s) : LogAgrees s := by
  have hinv : RoundInv s ∧ RawInv s ∧ NotedInv s := by
    apply h.invariant
    · exact ⟨.start .., RawInv.start _ _ _ _ _, .of_other (by simp [State.start]) (by simp [State.start])⟩
    rintro t u c _ hok ⟨hr, hraw, hn⟩ hs
    have ht := step_trans hs
    exact ⟨hr.trans ht, hraw.trans ht, hn.step hr hraw hok hs⟩
  obtain ⟨hr, _, hn⟩ := hinv
  intro k layer ph hpc hover sid hsid
  have hl := hn.inLayer k layer ph hpc
  refine (hl.over hover sid hsid).agreesAt hl.probes ?_
  obtain ⟨external, hsort⟩ := (hr.inLayer k layer ph hpc).sorted
  have hmem : sid ∈ (k.done ++ layer :: k.rest).flatten := by
    rw [List.flatten_append, List.flatten_cons, ← List.append_assoc]
    exact List.mem_append_left _ hsid
  obtain ⟨l, hl', hsid'⟩ := List.mem_flatten.mp hmem
  exact (mem_of_topologicalSort hsort hl' hsid').1

/-- A test for a step of a finished layer whose state is recorded differently in log and memory. -/
def recordsDiffer (s : State) : Bool :=
  match s.pc with
  | .inLayer k layer (.confirming [] _) => (k.done.flatten ++ layer).any fun sid =>
      match s.results.get? sid, (rebuildResultsFromEvidence (foldEvidence s.log)).get? sid with
      | some r, some r' => r'.execState ≠ r.execState
      | _, _ => true
  | _ => false

theorem not_logAgrees (h : recordsDiffer s = true) : ¬LogAgrees s := by
  intro hagree
  unfold recordsDiffer at h
  split at h
  next k layer retries hpc =>
    obtain ⟨sid, hsid, hdiff⟩ := List.any_eq_true.mp h
    obtain ⟨r, r', hr, hr', hst, _⟩ := hagree k layer _ hpc (.confirmed retries) sid hsid
    rw [hr, hr'] at hdiff
    simp [hst] at hdiff
  next => cases h

end invariant

/-! ### A delete that is confirmed -/

section scenario
attribute [local instance] asciiPy

/-- Delete one file. -/
def deletePlan : DagPlan := { steps := [fileStep "delete" "delete" "a.txt" []] }

/-- The delete has to be confirmed, the operator confirms it, and the retry is answered as given. -/
def confirmScript (answer : ToolExecutionResult) : List Choice :=
  Choice.enter "p" :: playLayer 1 [("delete",
      { status := .confirmationNeeded, toolCallId := "call", confirmationId := some "c" })] ++
    [Choice.tick, .resume, .ret "delete" (.ok answer), .tick]

/-- The file is gone: the tool reports no success. -/
def notFound : ToolExecutionResult :=
  { status := .completed, toolCallId := "call", hasSemanticError := true
    output := .obj [("success", .bool false), ("path", .str "a.txt"),
      ("error", .str "File not found: a.txt")]
    error := some "File not found: a.txt" }

/-- The delete was done before: the recorded answer is returned. -/
def deletedBefore : ToolExecutionResult :=
  { status := .idempotencyHit, toolCallId := "call"
    output := .obj [("success", .bool true), ("path", .str "a.txt")] }

/-- A retry without success is logged as failed, and a cached one as completed. -/
theorem retry_recorded_differently :
    (∃ s, Lib.Reaches (step fileConfig) (State.start deletePlan .empty [] [] []) s ∧ ¬LogAgrees s ∧
      s.results.get? "delete" = some (dispatch (fileStep "delete" "delete" "a.txt" []) notFound)) ∧
    ∃ s, Lib.Reaches (step fileConfig) (State.start deletePlan .empty [] [] []) s ∧ ¬LogAgrees s ∧
      s.results.get? "delete" =
        some (dispatch (fileStep "delete" "delete" "a.txt" []) deletedBefore) := by
  have hrun : ∀ answer, ((Lib.run (step fileConfig) (confirmScript answer)
      (State.start deletePlan .empty [] [] [])).any fun s => recordsDiffer s && s.results.get? "delete" =
        some (dispatch (fileStep "delete" "delete" "a.txt" []) answer)) = true →
      ∃ s, Lib.Reaches (step fileConfig) (State.start deletePlan .empty [] [] []) s ∧ ¬LogAgrees s ∧
        s.results.get? "delete" =
          some (dispatch (fileStep "delete" "delete" "a.txt" []) answer) := by
    intro answer h
    obtain ⟨s, hs, hp⟩ := Lib.exists_reaches_of_run _ _ _ _ h
    rw [Bool.and_eq_true, decide_eq_true_eq] at hp
    exact ⟨s, hs, not_logAgrees hp.1, hp.2⟩
  exact ⟨hrun notFound (by decide +kernel), hrun deletedBefore (by decide +kernel)⟩

/-- Every step of the layer that asked for a confirmation is through. -/
def allConfirmed (steps : List String) : Pc → Bool
  | .inLayer _ layer (.confirming [] _) => layer = steps
  | _ => false

theorem exists_of_allConfirmed {steps : List String} {pc : Pc} (h : allConfirmed steps pc = true) :
    ∃ k retries, pc = .inLayer k steps (.confirming [] retries) := by
  unfold allConfirmed at h
  split at h
  next k layer retries =>
    obtain rfl : layer = steps := of_decide_eq_true h
    exact ⟨k, retries, rfl⟩
  next => cases h

/-- A confirmed delete that succeeds is recorded alike. -/
theorem confirmed_delete_recorded_alike : ∃ s,
    Lib.ReachesVia (step fileConfig) (fun s c => recordsAlike s c = true)
      (State.start deletePlan .empty [] [] []) s ∧
    (∃ k retries, s.pc = .inLayer k ["delete"] (.confirming [] retries)) ∧ LogAgrees s := by
  obtain ⟨s, hs, hp⟩ := Lib.exists_reachesVia_of_run (step fileConfig) recordsAlike
    (confirmScript (answered (.obj [("success", .bool true), ("path", .str "a.txt")])))
    (State.start deletePlan .empty [] [] []) (fun s => allConfirmed ["delete"] s.pc) (by decide +kernel)
  exact ⟨s, hs, exists_of_allConfirmed hp, log_agrees_with_memory deletePlan .empty [] [] hs⟩

end scenario
end JAgent
