import JAgent.Scheduler.Executed

/-! # References at a call

The guardrail accepts a reference to any step of the plan, and the resolver keeps the text of a
reference whose step has no normal result.  Whether a reference is replaced when the Tool Layer
is called therefore depends on the order and the outcome of the steps.  It is replaced for
certain when its step was finished before the round, or when the referring step depends on it,
directly or through steps that are still to run: a step is called only with normal dependencies
(`deps_normal_of_call`), and so was each of these (`SupplyInv`). -/

namespace JAgent

/-! ### The condition at an entry -/

/-- The ids a step depends on, directly or through at most `n` steps that are still to run. -/
def suppliers (plan : DagPlan) (completed : List String) : ℕ → DagStep → List String
  | 0, p => p.dependsOn
  | n + 1, p => p.dependsOn ++ (plan.steps.filter fun q =>
      p.dependsOn.contains q.id && !completed.contains q.id).flatMap (suppliers plan completed n)

section condition
variable [Py]

/-- A step of the round refers only to steps that are finished or that it depends on, and no
reference sits in an array inside an array. -/
def refsSupplied (plan : DagPlan) (results : Results) (p : DagStep) : Bool :=
  flatRefsObj p.input && (refIds p).all fun x =>
    Results.holdsAt results StepResult.finished x ||
      (suppliers plan (Results.idsWith results StepResult.shouldNotRerun) plan.steps.length p).contains x

/-- At an entry, the references of every step that is still to run are supplied. -/
def suppliesRefs (s : State) (_ : Choice) : Bool :=
  match s.pc with
  | .entry => s.plan.steps.all fun p =>
      (Results.idsWith s.results StepResult.shouldNotRerun).contains p.id ||
        refsSupplied s.plan s.results p
  | _ => true

/-- Every call so far was made with an input in which each reference is replaced by a value of
the referenced output; a step that was not called ended FAILED or SKIPPED. -/
def RefsResolved (s : State) : Prop :=
  (∀ step input seen, .call step input seen ∈ s.hist →
    replaced (normalOutput seen) (.obj step.input) (.obj input) = true) ∧
  ∀ step r, .settle step r ∈ s.hist →
    (r.execState = .failed ∨ r.execState = .skipped) ∨ ∃ input seen, .call step input seen ∈ s.hist

end condition

/-! ### The invariant of a round -/

section invariant
variable {cfg : Config} {s t : State} {c : Choice}

/-- All dependencies of a step are normal. -/
def DepsNormal (s : State) (p : DagStep) : Prop := ∀ d ∈ p.dependsOn, normalAt s.results d = true

/-- A step of the listed ids that is normal has normal dependencies. -/
def Chained (s : State) (ids : List String) : Prop :=
  ∀ p ∈ s.plan.steps, p.id ∈ ids → normalAt s.results p.id = true → DepsNormal s p

/-- The step the plan lists was called with normal dependencies. -/
def CalledReady (s : State) (sid : String) (step : DagStep) : Prop :=
  step = stepOr s.plan sid ∧ DepsNormal s step

/-- The settled ids of a round in a layer. -/
def settledIds (k : Round) (layer : List String) (ph : Phase) : List String :=
  k.done.flatten ++ layer.filter fun sid => !(ph.waiting layer).contains sid

theorem mem_settledIds {k : Round} {layer : List String} {ph : Phase} {sid : String} :
    sid ∈ settledIds k layer ph ↔ sid ∈ k.done.flatten ∨ (sid ∈ layer ∧ sid ∉ ph.waiting layer) := by
  simp [settledIds]

section frame
variable {k : Round} {layer : List String} {ph : Phase} {sid : String} {r : StepResult}

/-- A new result in the layer changes no dependency of the steps up to the layer. -/
theorem DepsNormal.set (hl : InLayer s k layer ph) (hres : t.results = s.results.set sid r)
    (hsid : sid ∈ layer) {p : DagStep}
    (hp : p ∈ s.plan.steps) (hpid : p.id ∈ k.done.flatten ∨ p.id ∈ layer) (h : DepsNormal s p) :
    DepsNormal t p := by
  obtain ⟨external, hsort⟩ := hl.sorted
  intro d hd
  have hne : sid ≠ d := by
    rintro rfl
    exact dep_not_mem_layer hsort rfl hp hpid hd hsid
  have hget : t.results.get? d = s.results.get? d := by
    rw [hres, Lib.Dict.get?_set, if_neg hne]
  have hn := h d hd
  unfold normalAt Results.holdsAt at hn ⊢
  rwa [hget]

/-- What was called stays ready. -/
theorem CalledReady.set (hl : InLayer s k layer ph) (hplan : t.plan = s.plan)
    (hres : t.results = s.results.set sid r) (hsid : sid ∈ layer) {x : String} {step : DagStep}
    (hx : x ∈ layer) (h : CalledReady s x step) : CalledReady t x step := by
  obtain ⟨rfl, hd⟩ := h
  obtain ⟨external, hsort⟩ := hl.sorted
  have hmem := (mem_of_topologicalSort hsort (List.mem_append_right _ List.mem_cons_self) hx).1
  refine ⟨by rw [hplan], hd.set hl hres hsid (stepOr_mem hmem) (.inr ?_)⟩
  rw [stepOr_id]
  exact hx

/-- What a ready step depends on, directly or through steps of the round, is normal. -/
theorem suppliers_normal (hin : InLayer s k layer ph)
    (hchain : Chained s (settledIds k layer ph)) {x : String} :
    ∀ (n : ℕ) {p : DagStep}, p ∈ s.plan.steps → (p.id ∈ k.done.flatten ∨ p.id ∈ layer) →
      DepsNormal s p → x ∈ suppliers s.plan k.completed n p → normalAt s.results x = true
  | 0, p, _, _, hready, hx => hready x hx
  | n + 1, p, hp, hpid, hready, hx => by
      rcases List.mem_append.mp hx with hx | hx
      · exact hready x hx
      · obtain ⟨q, hq, hx⟩ := List.mem_flatMap.mp hx
        simp only [List.mem_filter, Bool.and_eq_true, List.contains_eq_mem, decide_eq_true_eq,
          Bool.not_eq_true', decide_eq_false_iff_not] at hq
        obtain ⟨hq, hdep, hopen⟩ := hq
        obtain ⟨external, hsort⟩ := hin.sorted
        have hdone : q.id ∈ k.done.flatten :=
          dep_mem_earlier hsort rfl hp hpid hdep (List.mem_map_of_mem hq) hopen
        have hq' : DepsNormal s q :=
          hchain q hq (mem_settledIds.mpr (.inl hdone)) (hready q.id hdep)
        exact suppliers_normal hin hchain n hq (.inl hdone) hq' hx

end frame

variable [Py]

/-- The references of the steps of the round are supplied. -/
def Supplied (s : State) (k : Round) : Prop :=
  ∀ p ∈ s.plan.steps, p.id ∉ k.completed → flatRefsObj p.input = true ∧ ∀ x ∈ refIds p,
    (x ∈ k.completed ∧ normalAt s.results x = true) ∨
      x ∈ suppliers s.plan k.completed s.plan.steps.length p

/-- What holds inside a layer. -/
structure LayerSupply (s : State) (k : Round) (layer : List String) (ph : Phase) : Prop where
  supplied : Supplied s k
  chained : Chained s (settledIds k layer ph)
  raw : PhaseRaw (CalledReady s) ph

/-- The invariant of a round. -/
structure SupplyInv (s : State) : Prop where
  layers : ∀ k, s.pc = .layers k → Supplied s k ∧ Chained s k.done.flatten
  inLayer : ∀ k layer ph, s.pc = .inLayer k layer ph → LayerSupply s k layer ph

theorem SupplyInv.of_other (h1 : ∀ k, s.pc ≠ .layers k)
    (h2 : ∀ k layer ph, s.pc ≠ .inLayer k layer ph) : SupplyInv s :=
  ⟨fun k h => absurd h (h1 k), fun k layer ph h => absurd h (h2 k layer ph)⟩

theorem SupplyInv.of_plain (h : s.pc.plain = true) : SupplyInv s := by
  refine .of_other ?_ ?_ <;> intros <;> intro hpc <;> rw [hpc] at h <;> cases h

theorem SupplyInv.of_inLayer {k : Round} {layer : List String} {ph : Phase}
    (hpc : s.pc = .inLayer k layer ph) (h : LayerSupply s k layer ph) : SupplyInv s := by
  refine ⟨fun k' h' => ?_, fun k' layer' ph' h' => ?_⟩
  · rw [hpc] at h'
    cases h'
  · rw [hpc] at h'
    cases h'
    exact h

/-! ### Settling a step of the layer -/

section settling
variable {k : Round} {layer : List String} {ph ph' : Phase} {sid : String} {r : StepResult}

theorem LayerSupply.set (h : LayerSupply s k layer ph) (hl : InLayer s k layer ph)
    (hn : (stepIds s.plan.steps).Nodup) (hplan : t.plan = s.plan)
    (hres : t.results = s.results.set sid r) (hsid : sid ∈ layer)
    (hr : r.stepNormal = true → DepsNormal s (stepOr s.plan sid))
    (hwait : ∀ x ∈ ph.waiting layer, x = sid ∨ x ∈ ph'.waiting layer)
    (hraw : PhaseRaw (CalledReady t) ph') : LayerSupply t k layer ph' := by
  have hget : ∀ x, sid ≠ x → normalAt t.results x = normalAt s.results x := by
    intro x hx
    unfold normalAt Results.holdsAt
    rw [hres, Lib.Dict.get?_set, if_neg hx]
  refine ⟨?_, ?_, hraw⟩
  · intro p hp hc
    rw [hplan] at hp ⊢
    obtain ⟨hflat, hrefs⟩ := h.supplied p hp hc
    refine ⟨hflat, fun x hx => (hrefs x hx).imp_left fun hx => ?_⟩
    -- a completed step is in no layer
    obtain ⟨external, hsort⟩ := hl.sorted
    have hne : sid ≠ x := by
      rintro rfl
      exact (mem_of_topologicalSort hsort (List.mem_append_right _ List.mem_cons_self) hsid).2 hx.1
    exact ⟨hx.1, by rw [hget x hne]; exact hx.2⟩
  · intro p hp hpid hnorm
    rw [hplan] at hp
    rw [mem_settledIds] at hpid
    have hupto : p.id ∈ k.done.flatten ∨ p.id ∈ layer := hpid.imp_right And.left
    refine DepsNormal.set hl hres hsid hp hupto ?_
    by_cases he : sid = p.id
    · have hp' : stepOr s.plan sid = p := by rw [he, stepOr_of_mem hn hp]
      rw [← hp']
      apply hr
      obtain ⟨r', hr', hn'⟩ := Results.holdsAt_iff.mp hnorm
      rw [hres, Lib.Dict.get?_set, if_pos he] at hr'
      cases hr'
      exact hn'
    · rw [hget p.id he] at hnorm
      refine h.chained p hp (mem_settledIds.mpr (hpid.imp_right fun hx => ⟨hx.1, fun hw => ?_⟩)) hnorm
      rcases hwait p.id hw with hw | hw
      · exact he hw.symm
      · exact hx.2 hw

/-- A normal result answers a call that was ready. -/
theorem Answers.ready {x : String} {res : StepResult} (h : Answers (CalledReady s) x res)
    (hn : res.stepNormal = true) : DepsNormal s (stepOr s.plan x) := by
  rcases h with h | ⟨step, answer, ⟨rfl, hd⟩, _⟩
  · exact absurd h (not_refused_of_stepNormal hn)
  · exact hd

end settling

/-! ### One move -/

theorem supplied_enter {planId : String} {layers : List (List String)} (hpc : s.pc = .entry)
    (hok : suppliesRefs s c = true) :
    Supplied s ⟨planId, Results.idsWith s.results StepResult.shouldNotRerun, [], layers, layers.length⟩ := by
  intro p hp hc
  unfold suppliesRefs at hok
  simp only [hpc, List.all_eq_true, Bool.or_eq_true, List.contains_eq_mem, decide_eq_true_eq] at hok
  have hsup := (hok p hp).resolve_left hc
  unfold refsSupplied at hsup
  simp only [Bool.and_eq_true, List.all_eq_true, Bool.or_eq_true, List.contains_eq_mem,
    decide_eq_true_eq] at hsup
  refine ⟨hsup.1, fun x hx => (hsup.2 x hx).imp_left fun hfin => ?_⟩
  obtain ⟨r, hr, hf⟩ := Results.holdsAt_iff.mp hfin
  constructor
  · exact Results.mem_idsWith.mpr (Results.holdsAt_iff.mpr ⟨r, hr, StepResult.shouldNotRerun_of_finished hf⟩)
  · exact Results.holdsAt_iff.mpr ⟨r, hr, StepResult.stepNormal_of_finished hf⟩

/-- **One move keeps the steps of a round supplied.** -/
theorem SupplyInv.trans (h : SupplyInv s) (hd : DataInv cfg s) (hr : RoundInv s)
    (hok : suppliesRefs s c = true) (ht : Trans cfg s c t) : SupplyInv t := by
  cases ht with
  | quiet hp _ _ => exact .of_plain hp
  | foreign _ =>
      exact ⟨h.layers, fun k layer ph hpc =>
        have hl := h.inLayer k layer ph hpc
        ⟨hl.supplied, hl.chained, hl.raw⟩⟩
  | enter hpc _ _ _ =>
      refine ⟨?_, by simp⟩
      rintro k ⟨⟩
      refine ⟨?_, fun p _ hp => by cases hp⟩
      show Supplied s _
      exact supplied_enter hpc hok
  | nextLayer hpc _ =>
      obtain ⟨hsup, hchain⟩ := h.layers _ hpc
      refine .of_inLayer rfl ⟨hsup, fun p hp hpid => ?_, trivial⟩
      rcases mem_settledIds.mp hpid with hdone | ⟨hlayer, hwait⟩
      · exact hchain p hp hdone
      · exact absurd hlayer (by simpa [Phase.waiting] using hwait)
  | move hpc hm _ =>
      have hl := h.inLayer _ _ _ hpc
      refine .of_inLayer rfl ⟨hl.supplied, fun p hp hpid => ?_, hm.raw hl.raw⟩
      rw [mem_settledIds, hm.waiting_eq, ← mem_settledIds] at hpid
      exact hl.chained p hp hpid
  | gateSkip hpc hskip _ =>
      have hin := hr.inLayer _ _ _ hpc
      refine .of_inLayer rfl ((h.inLayer _ _ _ hpc).set hin (hd.plan_nodup (by rw [hpc]; rfl)) rfl rfl
        (hin.ungated List.mem_cons_self) (fun hn => ?_) (fun x hx => ?_) trivial)
      · exact absurd (.inr hskip) (not_refused_of_stepNormal hn)
      · simp only [Phase.waiting, List.mem_filter, Bool.not_eq_true', List.contains_eq_mem,
          decide_eq_false_iff_not, List.mem_append, List.mem_singleton] at hx ⊢
        tauto
  | call hpc hc hprep =>
      have hl := h.inLayer _ _ _ hpc
      have hready := stepOr_of_prepared hprep
      refine .of_inLayer rfl ⟨hl.supplied, fun p hp hpid => ?_, hc.raw ⟨hready, ?_⟩ hl.raw⟩
      · rw [mem_settledIds, hc.waiting_eq, ← mem_settledIds] at hpid
        exact hl.chained p hp hpid
      · exact fun d hdep => deps_normal_of_call hd hr hpc hc hprep hdep
  | @settle _ k layer sid raw todo pending failed hpc =>
      have hin := hr.inLayer _ _ _ hpc
      have hl := h.inLayer _ _ _ hpc
      have hlive : ∀ x ∈ sid :: todo.map Prod.fst, x ∈ layer := fun x hx =>
        hin.live.subset (List.mem_append_right _ hx)
      refine .of_inLayer rfl (hl.set hin (hd.plan_nodup (by rw [hpc]; rfl)) rfl rfl
        (hlive sid List.mem_cons_self) (fun hn => ?_) (fun x hx => ?_) fun x r hmem => ?_)
      · cases raw with
        | error msg => exact absurd (.inl rfl) (not_refused_of_stepNormal hn)
        | ok r =>
            rw [settle_result] at hn
            exact (hl.raw sid r List.mem_cons_self).ready hn
      · simpa [Phase.waiting] using hx
      · refine (hl.raw x r (List.mem_cons_of_mem _ hmem)).mono fun step hc => ?_
        have hx : x ∈ layer := hlive x (List.mem_cons_of_mem _ (List.mem_map_of_mem hmem))
        exact CalledReady.set (t := { settleState s k sid raw with pc := _ }) hin rfl rfl
          (hlive sid List.mem_cons_self) hx hc
  | settleRetry hpc =>
      have hin := hr.inLayer _ _ _ hpc
      have hl := h.inLayer _ _ _ hpc
      refine .of_inLayer rfl (hl.set hin (hd.plan_nodup (by rw [hpc]; rfl)) rfl rfl
        (hin.live.subset List.mem_cons_self) (fun hn => ?_) (by simp [Phase.waiting]) trivial)
      exact (hl.raw _ rfl).ready hn
  | layerDone hpc hover =>
      have hl := h.inLayer _ _ _ hpc
      refine ⟨?_, by simp⟩
      rintro k ⟨⟩
      refine ⟨hl.supplied, fun p hp hpid => ?_⟩
      rw [List.flatten_append, List.mem_append, List.flatten_singleton] at hpid
      refine hl.chained p hp (mem_settledIds.mpr (hpid.imp_right fun hx => ⟨hx, ?_⟩))
      simp [hover.waiting]
  | accept _ _ _ hpc' =>
      rcases hpc' with hp | ⟨_, site, k, rfl⟩
      · exact .of_plain hp
      · exact .of_other (by simp) (by simp)
  | mergeAdopt _ | announce _ _ => exact .of_other (by simp [adopt]) (by simp [adopt])
  | _ => exact .of_other (by simp) (by simp)

/-! ### The call -/

/-- **A call of a supplied round has its references replaced.** -/
theorem replaced_of_call {k : Round} {layer : List String} {ph ph' : Phase} {sid : String}
    {step : DagStep} {input : Obj} (h : SupplyInv s) (hd : DataInv cfg s) (hr : RoundInv s)
    (hpc : s.pc = .inLayer k layer ph) (hc : CallMove sid step ph ph')
    (hprep : prepareStep cfg.registry s.plan s.results sid = .call step input) :
    replaced (normalOutput s.results) (.obj step.input) (.obj input) = true := by
  have hin := hr.inLayer k layer ph hpc
  have hl := h.inLayer k layer ph hpc
  have hready : DepsNormal s step := fun d hdep => deps_normal_of_call hd hr hpc hc hprep hdep
  obtain ⟨hmem, rfl, _, hres⟩ := prepareStep_call hprep
  have hlayer : step.id ∈ layer := hin.live.subset hc.mem_live
  have hopen : step.id ∉ k.completed := by
    obtain ⟨external, hsort⟩ := hin.sorted
    exact (mem_of_topologicalSort hsort (List.mem_append_right _ List.mem_cons_self) hlayer).2
  obtain ⟨hflat, hrefs⟩ := hl.supplied step hmem hopen
  have hknown : Known (upstreamOutputs step s.results) (normalOutput s.results)
      (collectRefsObj step.input none) := by
    intro x hx
    have hx' : x.ref.stepId ∈ refIds step := List.mem_map_of_mem (f := fun r => r.ref.stepId) hx
    have hnormal : normalAt s.results x.ref.stepId = true := by
      rcases hrefs _ hx' with hdone | hsup
      · exact hdone.2
      · exact suppliers_normal hin hl.chained _ hmem (.inr hlayer) hready hsup
    obtain ⟨r, hget, hn⟩ := Results.holdsAt_iff.mp hnormal
    have hout : normalOutput s.results x.ref.stepId = some r.output := by
      unfold normalOutput
      rw [hget]
      exact if_pos hn
    exact ⟨r.output, upstreamOutputs_get? hout, hout⟩
  rw [replaced]
  exact resolveVariablesInInput_replaced step.input none input hres hflat hknown

/-- **No unresolved reference reaches a tool, as long as references are supplied.**  In every run
in which, at each entry, the steps still to run refer only to finished steps and to steps they
depend on, every call has each reference replaced by a value of the referenced output. -/
theorem refs_resolved_at_call (plan : DagPlan) (results : Results) (contracts : List DeliveryContract)
    (log : List Event) {s : State}
    (h : Lib.ReachesVia (step cfg) (fun s c => suppliesRefs s c = true)
      (State.start plan results contracts log []) s) : RefsResolved s := by
  have hinv : DataInv cfg s ∧ RoundInv s ∧ RawInv s ∧ HistInv s ∧ SupplyInv s ∧
      ∀ step input seen, .call step input seen ∈ s.hist →
        replaced (normalOutput seen) (.obj step.input) (.obj input) = true := by
    apply h.invariant
    · exact ⟨.start .., .start .., RawInv.start _ _ _ _ _, by simp [HistInv, State.start],
        .of_other (by simp [State.start]) (by simp [State.start]), by simp [State.start]⟩
    rintro t u c _ hok ⟨hd, hr, hraw, hh, hsup, hcalls⟩ hs
    have ht := step_trans hs
    refine ⟨hd.trans ht, hr.trans ht, hraw.trans ht, hh.trans hraw ht, hsup.trans hd hr hok ht, ?_⟩
    intro step input seen hmem
    rcases ht.call_mem hmem with hold | ⟨k, layer, ph, ph', sid, hpc, hc, hprep, rfl⟩
    · exact hcalls step input seen hold
    · exact replaced_of_call hsup hd hr hpc hc hprep
  obtain ⟨_, _, _, hh, _, hcalls⟩ := hinv
  exact ⟨hcalls, hh⟩

/-- A test for a call with an unresolved reference. -/
def callsUnresolved (s : State) : Bool :=
  s.hist.any fun o => match o with
    | .call step input seen => !replaced (normalOutput seen) (.obj step.input) (.obj input)
    | _ => false

theorem not_refsResolved (h : callsUnresolved s = true) : ¬RefsResolved s := by
  rintro ⟨hcalls, _⟩
  obtain ⟨o, ho, hun⟩ := List.any_eq_true.mp h
  cases o with
  | call step input seen =>
      simp only [hcalls step input seen ho] at hun
      cases hun
  | _ => cases hun

end invariant

/-! ### A reference without a dependency -/

section scenario
attribute [local instance] asciiPy

/-- Read a file and copy it, without saying that the copy depends on the read. -/
def unorderedCopy : DagPlan :=
  { steps := [fileStep "read" "read" "a.txt" [], writeStep "copy" "b.txt" "$read.content" []] }

/-- The plan is accepted, both steps are in one layer, and the text of the reference is written. -/
theorem reference_text_reaches_tool :
    validate fileConfig.registry unorderedCopy [] [] = [] ∧
    ∃ s, Lib.Reaches (step fileConfig) (State.start unorderedCopy .empty [] [] []) s ∧ ¬RefsResolved s := by
  refine ⟨by decide +kernel, ?_⟩
  obtain ⟨s, hs, hp⟩ := Lib.exists_reaches_of_run (step fileConfig)
    (.enter "p" :: playLayer 2 [("read", answered (.obj [("content", .str "hi")])),
      ("copy", answered (.obj [("success", .bool true)]))])
    (State.start unorderedCopy .empty [] [] []) callsUnresolved (by decide +kernel)
  exact ⟨s, hs, not_refsResolved hp⟩

/-- With the dependency, the content that was read is written. -/
theorem copied_content_reaches_tool : ∃ s,
    Lib.ReachesVia (step fileConfig) (fun s c => suppliesRefs s c = true)
      (State.start copyPlan .empty [] [] []) s ∧
    (s.hist.any fun o => match o with
      | .call st input _ => st.id = "copy" && Obj.get? input "content" = some (.str "hi")
      | _ => false) = true ∧ RefsResolved s := by
  obtain ⟨s, hs, hp⟩ := Lib.exists_reachesVia_of_run (step fileConfig) suppliesRefs copyScript
    (State.start copyPlan .empty [] [] []) (fun s => s.hist.any fun o => match o with
      | .call st input _ => st.id = "copy" && Obj.get? input "content" = some (.str "hi")
      | _ => false) (by decide +kernel)
  exact ⟨s, hs, hp, refs_resolved_at_call copyPlan .empty [] [] hs⟩

end scenario
end JAgent
