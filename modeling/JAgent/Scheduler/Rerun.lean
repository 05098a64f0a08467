import JAgent.Scheduler.Executed

/-! # Completed steps are not executed again

A finished step keeps its result, and a step with a finished result is not layered again; that
is why it is not executed a second time.  The one exception is a root step that has been
replaced: a merge drops its result, and a revision that lists it again would have it executed
again.  `keepsReplaced` excludes such revisions; `RerunInv` says why everything else is
safe. -/

namespace JAgent

/-- The second observation calls a step that the first one saw finishing. -/
def Reruns : Obs → Obs → Prop
  | .settle step r, .call step' _ _ => r.finished = true ∧ step'.id = step.id
  | _, _ => False

/-- Once a step has finished, the Tool Layer is not called for its id again. -/
def NoRerun (hist : List Obs) : Prop := hist.Pairwise fun before after => ¬Reruns before after

/-- The ids that the running round may still call. -/
def State.openIds (s : State) : List String :=
  match s.pc with
  | .layers k => k.rest.flatten
  | .inLayer k layer ph => ph.live layer ++ k.rest.flatten
  | _ => []

/-- The plan of the next round, as far as it is known. -/
def State.nextPlan (s : State) : DagPlan :=
  match s.pc with
  | .announcing _ merged => merged
  | _ => s.plan

/-- The run can still reach an entry. -/
def Pc.alive (pc : Pc) : Prop := pc.inRound = true ∨ pc = .entry

section history
variable {hist : List Obs}

theorem NoRerun.append {o : Obs} (h : NoRerun hist) (ho : ∀ a ∈ hist, ¬Reruns a o) :
    NoRerun (hist ++ [o]) := by
  unfold NoRerun
  rw [List.pairwise_append]
  refine ⟨h, List.pairwise_singleton _ _, fun a ha b hb => ?_⟩
  rw [List.mem_singleton.mp hb]
  exact ho a ha

theorem NoRerun.append_of_ne {o : Obs} (h : NoRerun hist) (ho : ∀ step input seen, o ≠ .call step input seen) :
    NoRerun (hist ++ [o]) := by
  refine h.append fun a _ => ?_
  cases o with
  | call step input seen => exact absurd rfl (ho step input seen)
  | _ => cases a <;> exact id

/-- A call for an id that has not finished. -/
theorem NoRerun.append_call {step : DagStep} {input : Obj} {seen : Results} (h : NoRerun hist)
    (hd : ¬DoneIn hist step.id) : NoRerun (hist ++ [Obs.call step input seen]) := by
  refine h.append fun a ha hr => ?_
  cases a with
  | settle step' r => exact hd ⟨step', r, ha, hr.1, hr.2.symm⟩
  | _ => exact hr

theorem doneIn_append {o : Obs} {sid : String} (h : DoneIn (hist ++ [o]) sid) :
    DoneIn hist sid ∨ ∃ step r, o = .settle step r ∧ r.finished = true ∧ step.id = sid := by
  obtain ⟨step, r, hmem, hf, hid⟩ := h
  rcases List.mem_append.mp hmem with hmem | hmem
  · exact .inl ⟨step, r, hmem, hf, hid⟩
  · exact .inr ⟨step, r, (List.mem_singleton.mp hmem).symm, hf, hid⟩

end history

/-! ### The invariant -/

section invariant
variable {cfg : Config} {s t : State} {c : Choice}

/-- A finished id keeps its result, or has been replaced and left the plan; in any case the
running round does not call it. -/
structure RerunInv (s : State) : Prop where
  hist : NoRerun s.hist
  kept : s.pc.alive → ∀ sid, DoneIn s.hist sid → Results.holdsAt s.results StepResult.finished sid = true ∨
    (canonical s.aliases sid ≠ sid ∧ sid ∉ stepIds s.nextPlan.steps)
  closed : ∀ sid, DoneIn s.hist sid → sid ∉ s.openIds

theorem RerunInv.start (plan : DagPlan) (results : Results) (contracts : List DeliveryContract)
    (log : List Event) : RerunInv (State.start plan results contracts log []) := by
  refine ⟨List.Pairwise.nil, ?_, ?_⟩
  · rintro _ sid ⟨step, r, hmem, _⟩
    cases hmem
  · rintro sid ⟨step, r, hmem, _⟩
    cases hmem

/-- The ids a round may still call are distinct. -/
theorem openIds_nodup (h : RoundInv s) : s.openIds.Nodup := by
  unfold State.openIds
  split
  next k hpc =>
    obtain ⟨external, hsort⟩ := (h.layers k hpc).sorted
    have hn := nodup_flatten_of_topologicalSort hsort
    rw [List.flatten_append, List.nodup_append] at hn
    exact hn.2.1
  next k layer ph hpc =>
    have hl := h.inLayer k layer ph hpc
    obtain ⟨external, hsort⟩ := hl.sorted
    have hn := nodup_flatten_of_topologicalSort hsort
    rw [List.flatten_append, List.flatten_cons, List.nodup_append] at hn
    exact (hl.live.append (List.Sublist.refl _)).nodup hn.2.1
  next => exact List.nodup_nil

/-- Moves that settle nothing and drop no finished result. -/
theorem RerunInv.of_frame (h : RerunInv s) (hhist : NoRerun t.hist)
    (hdone : ∀ sid, DoneIn t.hist sid → DoneIn s.hist sid) (halive : t.pc.alive → s.pc.alive)
    (hres : ∀ sid, DoneIn s.hist sid → Results.holdsAt s.results StepResult.finished sid = true →
      Results.holdsAt t.results StepResult.finished sid = true)
    (haliases : t.aliases = s.aliases)
    (hplan : t.pc.alive → stepIds t.nextPlan.steps = stepIds s.nextPlan.steps)
    (hopen : t.openIds ⊆ s.openIds) : RerunInv t := by
  refine ⟨hhist, fun ha sid hd => ?_, fun sid hd hmem => h.closed sid (hdone sid hd) (hopen hmem)⟩
  rcases h.kept (halive ha) sid (hdone sid hd) with hf | ⟨h1, h2⟩
  · exact .inl (hres sid (hdone sid hd) hf)
  · rw [haliases, hplan ha]
    exact .inr ⟨h1, h2⟩

/-- Settling an open id: when it finishes, it is closed. -/
theorem RerunInv.of_settle {sid : String} {r : StepResult} (h : RerunInv s) (halive : s.pc.alive)
    (hsid : sid ∈ s.openIds) (hhist : t.hist = s.hist ++ [Obs.settle (stepOr s.plan sid) r])
    (hres : t.results = s.results.set sid r) (haliases : t.aliases = s.aliases)
    (hplan : t.nextPlan = s.nextPlan) (hopen : t.openIds ⊆ s.openIds)
    (hclosed : r.finished = true → sid ∉ t.openIds) : RerunInv t := by
  have hne : ∀ x, DoneIn s.hist x → sid ≠ x := by
    rintro x hx rfl
    exact h.closed sid hx hsid
  refine ⟨?_, fun _ x hd => ?_, fun x hd => ?_⟩
  · rw [hhist]
    exact h.hist.append_of_ne (by simp)
  · rw [hhist] at hd
    rw [haliases, hplan, hres]
    rcases doneIn_append hd with hd | ⟨step, r', he, hf, hid⟩
    · rcases h.kept halive x hd with hk | hk
      · refine .inl ?_
        unfold Results.holdsAt at hk ⊢
        rwa [Lib.Dict.get?_set, if_neg (hne x hd)]
      · exact .inr hk
    · cases he
      rw [stepOr_id] at hid
      subst hid
      exact .inl (Results.holdsAt_iff.mpr ⟨r, by simp, hf⟩)
  · rw [hhist] at hd
    rcases doneIn_append hd with hd | ⟨step, r', he, hf, hid⟩
    · exact fun hmem => h.closed x hd (hopen hmem)
    · cases he
      rw [stepOr_id] at hid
      subst hid
      exact hclosed hf

theorem alive_inLayer {k : Round} {layer : List String} {ph : Phase} (hpc : s.pc = .inLayer k layer ph) :
    s.pc.alive := .inl (by rw [hpc]; rfl)

theorem openIds_inLayer {k : Round} {layer : List String} {ph : Phase}
    (hpc : s.pc = .inLayer k layer ph) : s.openIds = ph.live layer ++ k.rest.flatten := by
  unfold State.openIds
  rw [hpc]

theorem nextPlan_of_working (h : s.pc.working = true) : s.nextPlan = s.plan := by
  unfold State.nextPlan
  split
  next hpc =>
    rw [hpc] at h
    cases h
  next => rfl

theorem nextPlan_inLayer {k : Round} {layer : List String} {ph : Phase} (hpc : s.pc = .inLayer k layer ph) :
    s.nextPlan = s.plan := nextPlan_of_working (by rw [hpc]; rfl)

theorem nextPlan_of_plain (h : s.pc.plain = true) : s.nextPlan = s.plan := by
  unfold State.nextPlan
  split
  next hpc =>
    rw [hpc] at h
    cases h
  next => rfl

theorem openIds_of_plain (h : s.pc.plain = true) : s.openIds = [] := by
  unfold State.openIds
  split
  next hpc =>
    rw [hpc] at h
    cases h
  next hpc =>
    rw [hpc] at h
    cases h
  next => rfl

/-- A new round layers only ids that have not finished. -/
theorem closed_enter {layers : List (List String)} (h : RerunInv s) (hpc : s.pc = .entry)
    (hsort : topologicalSort s.plan (Results.idsWith s.results StepResult.shouldNotRerun)
      (Results.idsWith s.results StepResult.outputAvailable) = .ok layers) {sid : String}
    (hd : DoneIn s.hist sid) : sid ∉ layers.flatten := by
  intro hmem
  obtain ⟨l, hl, hsid⟩ := List.mem_flatten.mp hmem
  obtain ⟨hplan, hcompl⟩ := mem_of_topologicalSort hsort hl hsid
  rcases h.kept (.inr hpc) sid hd with hf | ⟨_, hout⟩
  · obtain ⟨r, hr, hfin⟩ := Results.holdsAt_iff.mp hf
    exact hcompl (Results.mem_idsWith.mpr (Results.holdsAt_iff.mpr
      ⟨r, hr, StepResult.shouldNotRerun_of_finished hfin⟩))
  · unfold State.nextPlan at hout
    rw [hpc] at hout
    exact hout hplan

variable [Py]

/-- A merged revision does not list a step that has finished and is replaced. -/
def keepsReplaced (s : State) (_ : Choice) : Bool :=
  match s.pc with
  | .merging _ _ revised => revised.steps.all fun p =>
      s.canonicalWith revised p.id = p.id || (lastDone s.hist p.id).isNone
  | _ => true

/-- The merged plan leaves out every finished step whose result it drops. -/
theorem kept_merged {site : Site} {k : Round} {revised : DagPlan} (h : RerunInv s)
    (hd : DataInv cfg s) (hpc : s.pc = .merging site k revised) (hok : keepsReplaced s c = true)
    {sid : String} (hdone : DoneIn s.hist sid) :
    Results.holdsAt (s.merge revised).results StepResult.finished sid = true ∨
      (canonical (s.merge revised).aliases sid ≠ sid ∧ sid ∉ stepIds (s.merge revised).plan.steps) := by
  have hn := hd.root_nodup (by rw [hpc]; rfl)
  unfold keepsReplaced at hok
  simp only [hpc, List.all_eq_true, Bool.or_eq_true, decide_eq_true_eq] at hok
  by_cases hcan : canonical (s.merge revised).aliases sid = sid
  · -- not replaced: a finished result is normal and stays
    rcases h.kept (.inl (by rw [hpc]; rfl)) sid hdone with hf | ⟨hold, _⟩
    · obtain ⟨r, hr, hfin⟩ := Results.holdsAt_iff.mp hf
      refine .inl (Results.holdsAt_iff.mpr ⟨r, ?_, hfin⟩)
      have hnormal : normalAt s.results sid = true :=
        Results.holdsAt_iff.mpr ⟨r, hr, StepResult.stepNormal_of_finished hfin⟩
      show (clearedResults s.results (s.merge revised).aliases (s.merge revised).plan.steps).get? sid = _
      rw [get?_clearedResults, if_neg (not_not.mpr hcan), if_neg (by simp [hnormal])]
      exact hr
    · exfalso
      rcases (s.merge_spec revised).canonical sid with hc | ⟨hroot, hc⟩
      · exact hold (hc ▸ hcan)
      · rw [hcan] at hc
        exact (mem_replacementIds.mp hc).2.1 hroot
  · refine .inr ⟨hcan, fun hmem => ?_⟩
    rcases (mem_stepIds_mergedSteps hn).mp hmem with hrev | ⟨_, hc, _⟩
    · obtain ⟨p, hp, rfl⟩ := List.mem_map.mp hrev
      obtain ⟨d, hlast⟩ := exists_lastDone hdone
      rw [hd.canonical_merge (by rw [hpc]; rfl)] at hcan
      simpa [hlast] using (hok p hp).resolve_left hcan
    · exact hcan hc

/-- **One move keeps completed steps from being executed again.** -/
theorem RerunInv.trans (h : RerunInv s) (hd : DataInv cfg s) (hr : RoundInv s)
    (hok : keepsReplaced s c = true) (ht : Trans cfg s c t) : RerunInv t := by
  have hnodup := openIds_nodup hr
  cases ht with
  | quiet hp hin _ =>
      refine h.of_frame h.hist (fun _ => id) ?_ (fun _ _ => id) rfl ?_ ?_
      · rintro (hi | rfl)
        · exact .inl (Pc.inRound_of_working (hin hi))
        · cases hp
      · rintro (hi | rfl)
        · rw [nextPlan_of_working (hin hi), nextPlan_of_plain hp]
        · cases hp
      · rw [openIds_of_plain hp]
        exact List.nil_subset _
  | heal hwork _ _ =>
      refine h.of_frame h.hist (fun _ => id) (fun _ => .inl (Pc.inRound_of_working hwork))
        (fun _ _ => id) rfl (fun _ => ?_) (List.nil_subset _)
      rw [nextPlan_of_working hwork]
      rfl
  | foreign _ => exact ⟨h.hist, h.kept, h.closed⟩
  | enter hpc _ hsort _ =>
      refine ⟨h.hist, fun _ sid hdone => ?_, fun sid hdone => closed_enter h hpc hsort hdone⟩
      have hk := h.kept (.inr hpc) sid hdone
      unfold State.nextPlan at hk
      rw [hpc] at hk
      exact hk
  | nextLayer hpc hrest =>
      refine h.of_frame h.hist (fun _ => id) (fun _ => .inl (by rw [hpc]; rfl)) (fun _ _ => id) rfl
        (fun _ => by rw [nextPlan_of_working (s := s) (by rw [hpc]; rfl)]; rfl) ?_
      simp [State.openIds, hpc, hrest, Phase.live]
  | move hpc hm _ =>
      refine h.of_frame h.hist (fun _ => id) (fun _ => alive_inLayer hpc) (fun _ _ => id) rfl
        (fun _ => by rw [nextPlan_inLayer hpc]; rfl) ?_
      rw [openIds_inLayer hpc]
      exact (hm.live_sublist.append (List.Sublist.refl _)).subset
  | gateSkip hpc _ _ =>
      have hopen := openIds_inLayer hpc
      refine h.of_frame h.hist (fun _ => id) (fun _ => alive_inLayer hpc) (fun sid hdone hf => ?_) rfl
        (fun _ => by rw [nextPlan_inLayer hpc]; rfl)
        (by rw [hopen]; exact List.Subset.refl _)
      unfold Results.holdsAt at hf ⊢
      rw [Lib.Dict.get?_set, if_neg]
      · exact hf
      · rintro rfl
        refine h.closed _ hdone ?_
        rw [hopen]
        exact List.mem_append_left _ ((hr.inLayer _ _ _ hpc).ungated List.mem_cons_self)
  | call hpc hc hprep =>
      refine h.of_frame (h.hist.append_call fun hdone => h.closed _ hdone ?_)
        (fun sid hdone => ?_) (fun _ => alive_inLayer hpc) (fun _ _ => id) rfl
        (fun _ => by rw [nextPlan_inLayer hpc]; rfl) ?_
      · rw [openIds_inLayer hpc, (prepareStep_call hprep).2.1]
        exact List.mem_append_left _ hc.mem_live
      · exact (doneIn_append hdone).resolve_right (by simp)
      · rw [openIds_inLayer hpc]
        exact hc.live_eq ▸ List.Subset.refl _
  | settle hpc =>
      have hopen := openIds_inLayer hpc
      rw [hopen] at hnodup
      refine h.of_settle (alive_inLayer hpc) ?_ rfl rfl rfl ?_ ?_ fun hf => ?_
      · simp [hopen, Phase.live]
      · rw [nextPlan_inLayer hpc]
        rfl
      · rw [hopen]
        simp only [State.openIds, Phase.live]
        split <;> simp
      · simp only [State.openIds, Phase.live, settle_pending hf]
        simp only [Phase.live, List.map_cons, List.append_assoc, List.cons_append] at hnodup
        rw [List.append_assoc]
        exact (List.nodup_cons.mp (List.nodup_middle.mp hnodup)).1
  | settleRetry hpc =>
      have hopen := openIds_inLayer hpc
      rw [hopen] at hnodup
      refine h.of_settle (alive_inLayer hpc) ?_ rfl rfl rfl ?_ ?_ fun _ => ?_
      · simp [hopen, Phase.live]
      · rw [nextPlan_inLayer hpc]
        rfl
      · rw [hopen]
        simp [State.openIds, Phase.live]
      · simp only [Phase.live, List.map_cons, List.cons_append] at hnodup
        exact (List.nodup_cons.mp hnodup).1
  | layerDone hpc _ =>
      refine h.of_frame h.hist (fun _ => id) (fun _ => alive_inLayer hpc) (fun _ _ => id) rfl
        (fun _ => by rw [nextPlan_inLayer hpc]; rfl) ?_
      rw [openIds_inLayer hpc]
      exact List.subset_append_right _ _
  | repair hpc _ =>
      refine h.of_frame (h.hist.append_of_ne (by simp)) (fun sid hdone => ?_)
        (fun _ => .inl (by rw [hpc]; rfl)) (fun sid _ hf => ?_) rfl (fun _ => ?_) (List.nil_subset _)
      · exact (doneIn_append hdone).resolve_right (by simp)
      · obtain ⟨r, hr', hfin⟩ := Results.holdsAt_iff.mp hf
        have hnormal := (hd.repairing _ _ _ hpc _ List.mem_cons_self).2
        refine Results.holdsAt_iff.mpr ⟨r, ?_, hfin⟩
        rw [Lib.Dict.get?_pop, if_neg]
        · exact hr'
        · rintro rfl
          simp [normalAt, Results.holdsAt, hr', StepResult.stepNormal_of_finished hfin] at hnormal
      · rw [nextPlan_of_working (s := s) (by rw [hpc]; rfl)]
        exact stepIds_repairPlan _ _ _
  | accept hwork _ _ hpc' =>
      refine h.of_frame h.hist (fun _ => id) (fun _ => .inl (Pc.inRound_of_working hwork))
        (fun sid _ hf => ?_) rfl (fun _ => ?_) ?_
      · rwa [holdsAt_mergeStepTasks (fun _ _ => rfl)]
      · rw [nextPlan_of_working hwork]
        rcases hpc' with hp | ⟨_, site, k, rfl⟩
        · rw [nextPlan_of_plain hp]
        · rfl
      · rcases hpc' with hp | ⟨_, site, k, rfl⟩
        · rw [openIds_of_plain hp]
          exact List.nil_subset _
        · exact List.nil_subset _
  | mergeFail hpc =>
      refine ⟨h.hist, fun ha => ?_, fun sid hdone hmem => by cases hmem⟩
      rcases ha with ha | ha <;> cases ha
  | mergeAnnounce hpc =>
      exact ⟨h.hist, fun _ sid hdone => kept_merged h hd hpc hok hdone, fun sid hdone hmem => by cases hmem⟩
  | mergeAdopt hpc =>
      refine ⟨h.hist.append_of_ne (by simp), fun _ sid hdone => ?_, fun sid hdone hmem => by cases hmem⟩
      exact kept_merged h hd hpc hok ((doneIn_append hdone).resolve_right (by simp))
  | announce hpc _ =>
      refine h.of_frame (h.hist.append_of_ne (by simp)) (fun sid hdone => ?_)
        (fun _ => .inl (by rw [hpc]; rfl)) (fun _ _ => id) rfl (fun _ => ?_) (List.nil_subset _)
      · exact (doneIn_append hdone).resolve_right (by simp)
      · unfold State.nextPlan
        rw [hpc]
        rfl

/-- **Completed steps are not executed again.**  In every run, from any initial results, in which
no revision lists a step that has finished and is replaced, the Tool Layer is never called for
an id under which a step has finished. -/
theorem completed_step_not_executed_again (plan : DagPlan) (results : Results)
    (contracts : List DeliveryContract) (log : List Event) {s : State}
    (h : Lib.ReachesVia (step cfg) (fun s c => keepsReplaced s c = true)
      (State.start plan results contracts log []) s) : NoRerun s.hist := by
  have hinv : DataInv cfg s ∧ RoundInv s ∧ RerunInv s := by
    apply h.invariant
    · exact ⟨.start .., .start .., .start ..⟩
    rintro t u c _ hok ⟨hd, hr, hi⟩ hs
    have ht := step_trans hs
    exact ⟨hd.trans ht, hr.trans ht, hi.trans hd hr hok ht⟩
  exact hinv.2.2.hist

end invariant

/-! ### A step that is executed again -/

/-- The second observation executes the same action as the first, which finished. -/
def repeatsAction : Obs → Obs → Bool
  | .settle step r, .call step' _ _ =>
    r.finished && step'.id = step.id && step'.tool = step.tool && step'.input = step.input
  | _, _ => false

/-- A test for a finished action that is executed again later. -/
def repeatsLater : List Obs → Bool
  | [] => false
  | o :: os => os.any (repeatsAction o) || repeatsLater os

/-- Some action is executed again after it has finished. -/
def RepeatsFinished (hist : List Obs) : Prop :=
  ∃ pre step r post step' input seen, hist = pre ++ Obs.settle step r :: post ∧ r.finished = true ∧
    Obs.call step' input seen ∈ post ∧ step'.id = step.id ∧ step'.tool = step.tool ∧
    step'.input = step.input

theorem repeatsFinished_of_repeatsLater : ∀ {hist : List Obs}, repeatsLater hist = true →
    RepeatsFinished hist
  | [], h => by cases h
  | o :: os, h => by
      rw [repeatsLater, Bool.or_eq_true, List.any_eq_true] at h
      rcases h with ⟨o', ho', hr⟩ | h
      · unfold repeatsAction at hr
        split at hr
        next step r step' input seen =>
          simp only [Bool.and_eq_true, decide_eq_true_eq] at hr
          obtain ⟨⟨⟨h1, h2⟩, h3⟩, h4⟩ := hr
          exact ⟨[], step, r, os, step', input, seen, rfl, h1, ho', h2, h3, h4⟩
        next => cases hr
      · obtain ⟨pre, step, r, post, step', input, seen, he, hrest⟩ := repeatsFinished_of_repeatsLater h
        exact ⟨o :: pre, step, r, post, step', input, seen, by rw [he, List.cons_append], hrest⟩

section scenario
attribute [local instance] asciiPy

/-- Two independent reads. -/
def twoReads : DagPlan :=
  { steps := [fileStep "a" "read" "a.txt" [], fileStep "b" "read" "b.txt" []] }

/-- The first read fails, and so does its replacement. -/
def replaceScript : List Choice :=
  Choice.enter "p" :: playLayer 2 [("a", refused "locked"), ("b", answered .null)] ++
    [Choice.revise (some { steps := [fileStep "a2" "read" "c.txt" []] }), .tick, .tick, .enter "q"] ++
    playLayer 1 [("a2", refused "missing")]

/-- A revision that reads another file under the id of the replaced step, and one more. -/
def readAgain (extra : String) : DagPlan :=
  { steps := [fileStep "a" "read" "d.txt" [], fileStep extra "list" extra []] }

/-- The replaced step is listed again and completes while another step fails; listed once more,
it is executed once more. -/
def rerunScript : List Choice :=
  replaceScript ++ [Choice.revise (some (readAgain "x")), .tick, .tick, .enter "r"] ++
    playLayer 2 [("a", answered .null), ("x", refused "denied")] ++
    [Choice.revise (some (readAgain "y")), .tick, .tick, .enter "t"] ++ List.replicate 7 Choice.tick ++ [Choice.call "a"]

/-- A completed action is executed again in the same run. -/
theorem replaced_step_executed_twice : ∃ s,
    Lib.Reaches (step fileConfig) (State.start twoReads .empty [] [] []) s ∧ RepeatsFinished s.hist := by
  obtain ⟨s, hs, hp⟩ := Lib.exists_reaches_of_run (step fileConfig) rerunScript
    (State.start twoReads .empty [] [] []) (fun s => repeatsLater s.hist) (by decide +kernel)
  exact ⟨s, hs, repeatsFinished_of_repeatsLater hp⟩

/-- The revision lists the read that completed; it is not executed again. -/
def listedAgainScript : List Choice :=
  Choice.enter "p" :: playLayer 2 [("a", refused "locked"), ("b", answered .null)] ++
    [Choice.revise (some { steps := [fileStep "a2" "read" "c.txt" [], fileStep "b" "read" "b.txt" []] }),
      .tick, .tick, .enter "q"] ++
    playLayer 1 [("a2", answered .null)] ++ [Choice.tick, .tick, .tick]

theorem listed_again_not_executed_again : ∃ s,
    Lib.ReachesVia (step fileConfig) (fun s c => keepsReplaced s c = true)
      (State.start twoReads .empty [] [] []) s ∧ (s.pc = .finished true) ∧ NoRerun s.hist := by
  obtain ⟨s, hs, hp⟩ := Lib.exists_reachesVia_of_run (step fileConfig) keepsReplaced listedAgainScript
    (State.start twoReads .empty [] [] []) (fun s => s.pc.endedWith true) (by decide +kernel)
  exact ⟨s, hs, Pc.endedWith_iff.mp hp, completed_step_not_executed_again twoReads .empty [] [] hs⟩

end scenario
end JAgent
