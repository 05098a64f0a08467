import JAgent.Scheduler.Merging

/-! # Names after a merge

Which names the steps of a merged plan use, and whether each still leads somewhere: to another
merged step, or to a result that is kept and has an output.  A merge rewrites the dependencies
of the steps it restores but not the references in their inputs, and drops the results of the
steps it replaces; `RevisedNames` and `RestoredNames` say exactly when no name is left dangling.

A plan without dangling names can still be rejected, because the revision and the restored
steps were never judged together: `FitTogether` is what remains to be checked. -/

namespace JAgent

section names
variable [Py]

/-- A restored step: its dependencies follow the replacements, its input stays as it is. -/
def State.restoreStep (s : State) (revised : DagPlan) (r : DagStep) : DagStep :=
  { r with dependsOn := r.dependsOn.map (s.canonicalWith revised) }

/-- The steps that are to run once the revision is merged. -/
def State.scheduled (s : State) (revised : DagPlan) : List DagStep :=
  revised.steps ++ (s.root.steps.filter fun r => Restored s revised r).map (s.restoreStep revised)

/-- A name used by a merged step leads to another merged step or to a kept output. -/
def Leads (s : State) (revised : DagPlan) (p : DagStep) (d : String) : Prop :=
  (d ∈ stepIds (s.merge revised).plan.steps ∧ d ≠ p.id) ∨
    availableAt (s.merge revised).results d = true

instance (s : State) (revised : DagPlan) (p : DagStep) (d : String) : Decidable (Leads s revised p d) :=
  inferInstanceAs (Decidable (_ ∨ _))

/-- Every dependency and every reference of the merged plan leads somewhere. -/
def NoDangling (s : State) (revised : DagPlan) : Prop :=
  ∀ p ∈ (s.merge revised).plan.steps, ∀ d ∈ p.dependsOn ++ refIds p, Leads s revised p d

instance (s : State) (revised : DagPlan) : Decidable (NoDangling s revised) :=
  inferInstanceAs (Decidable (∀ p ∈ _, _))

/-- The merged plan passes the guardrail in the context of the results that are left. -/
def MergeValid (cfg : Config) (s : State) (revised : DagPlan) : Prop :=
  validate cfg.registry (s.merge revised).plan
    (Results.idsWith (s.merge revised).results StepResult.stepNormal)
    (Results.idsWith (s.merge revised).results StepResult.outputAvailable) = []

instance (cfg : Config) (s : State) (revised : DagPlan) : Decidable (MergeValid cfg s revised) :=
  inferInstanceAs (Decidable (_ = _))

/-- A step of the revision names an original that is replaced only when the revision lists it,
and itself only when it is done. -/
def RevisedNames (s : State) (revised : DagPlan) : Prop :=
  ∀ p ∈ revised.steps, ∀ d ∈ p.dependsOn ++ refIds p,
    (d ∉ stepIds revised.steps → s.canonicalWith revised d = d) ∧
    (d = p.id → s.canonicalWith revised d = d ∧ normalAt s.results d = true)

instance (s : State) (revised : DagPlan) : Decidable (RevisedNames s revised) :=
  inferInstanceAs (Decidable (∀ p ∈ revised.steps, _))

/-- A restored step refers to a replaced original only when the revision lists it, and never to
itself; the replacements it depends on are listed or have an output. -/
def RestoredNames (s : State) (revised : DagPlan) : Prop :=
  ∀ r ∈ s.root.steps, Restored s revised r →
    (∀ x ∈ refIds r, x ≠ r.id ∧ (x ∈ stepIds revised.steps ∨ s.canonicalWith revised x = x)) ∧
    ∀ d ∈ r.dependsOn, s.canonicalWith revised d ≠ d →
      s.canonicalWith revised d ∈ stepIds revised.steps ∨
        availableAt s.results (s.canonicalWith revised d) = true

instance (s : State) (revised : DagPlan) : Decidable (RestoredNames s revised) :=
  inferInstanceAs (Decidable (∀ r ∈ s.root.steps, _))

/-- The steps of the revision and the restored ones can stand in one plan. -/
def FitTogether (cfg : Config) (s : State) (revised : DagPlan) : Prop :=
  findCycle (s.scheduled revised) (stepIds (s.scheduled revised)) = [] ∧
  hierarchyErrors (s.scheduled revised) (stepIds (s.scheduled revised)) = [] ∧
  ∀ p ∈ revised.steps, ∀ r ∈ s.root.steps, Restored s revised r →
    Fits cfg.registry p r ∧ Fits cfg.registry r p

instance (cfg : Config) (s : State) (revised : DagPlan) : Decidable (FitTogether cfg s revised) :=
  inferInstanceAs (Decidable (_ ∧ _ ∧ _))

/-! ### The merged plan -/

variable {cfg : Config} {s : State} {revised : DagPlan}

/-- A running round and a revision with steps that passed the guardrail. -/
structure Mergeable (cfg : Config) (s : State) (revised : DagPlan) : Prop where
  inv : ProcessInv cfg s
  inRound : s.pc.inRound = true
  valid : validate cfg.registry revised (Results.idsWith s.results StepResult.shouldNotRerun)
    (Results.idsWith s.results StepResult.outputAvailable) = []
  nonempty : revised.steps ≠ []

theorem mem_scheduled {p : DagStep} : p ∈ s.scheduled revised ↔
    p ∈ revised.steps ∨ ∃ r ∈ s.root.steps, Restored s revised r ∧ s.restoreStep revised r = p := by
  simp [State.scheduled, and_assoc]

namespace Mergeable

theorem root_nodup (h : Mergeable cfg s revised) : (stepIds s.root.steps).Nodup :=
  h.inv.data.root_nodup h.inRound

theorem revised_nodup (h : Mergeable cfg s revised) : (stepIds revised.steps).Nodup :=
  nodup_of_validate h.valid

/-- **The merged plan in terms of the inputs of the merge.** -/
theorem steps_eq (h : Mergeable cfg s revised) : (s.merge revised).plan.steps = s.scheduled revised := by
  have hcanon : ∀ sid, canonical (s.merge revised).aliases sid = s.canonicalWith revised sid :=
    fun _ => h.inv.data.canonical_merge h.inRound
  show (stepMap revised.steps).values ++ restoredSteps s.root revised s.results (s.merge revised).aliases = _
  unfold restoredSteps State.scheduled
  rw [values_stepMap h.revised_nodup, values_stepMap h.root_nodup]
  congr 1
  have hmap : rewriteDeps (s.merge revised).aliases = s.restoreStep revised := by
    funext r
    unfold rewriteDeps State.restoreStep
    rw [funext hcanon]
  rw [hmap]
  congr 1
  refine List.filter_congr fun r _ => ?_
  rw [Bool.eq_iff_iff, decide_eq_true_iff]
  simp [Restored, hcanon, and_assoc]

theorem mem_ids_iff (h : Mergeable cfg s revised) {d : String} :
    d ∈ stepIds (s.merge revised).plan.steps ↔ d ∈ stepIds revised.steps ∨
      (d ∈ stepIds s.root.steps ∧ s.canonicalWith revised d = d ∧ normalAt s.results d = false) := by
  rw [mem_merged_iff h.inv.data h.inRound, h.inv.data.canonical_merge h.inRound]

/-- The outputs that are kept: neither replaced nor about to be computed again. -/
theorem available_iff (h : Mergeable cfg s revised) {d : String} :
    availableAt (s.merge revised).results d = true ↔ s.canonicalWith revised d = d ∧
      (d ∈ stepIds (s.merge revised).plan.steps → normalAt s.results d = true) ∧
      availableAt s.results d = true := by
  have hget : (s.merge revised).results.get? d =
      if s.canonicalWith revised d ≠ d then none
      else if d ∈ stepIds (s.merge revised).plan.steps ∧ normalAt s.results d = false then none
      else s.results.get? d := by
    rw [← h.inv.data.canonical_merge h.inRound]
    exact get?_clearedResults
  unfold availableAt
  rw [Results.holdsAt_iff, Results.holdsAt_iff, hget]
  by_cases h1 : s.canonicalWith revised d = d
  · rw [if_neg (not_not.mpr h1)]
    cases hn : normalAt s.results d <;> by_cases h2 : d ∈ stepIds (s.merge revised).plan.steps <;>
      simp [h1, h2]
  · simp [h1]

/-! ### Which names lead on -/

/-- What a revision names is listed or has an output: nothing is CANCELLED in a run. -/
theorem named_of_revised (h : Mergeable cfg s revised) {p : DagStep} (hp : p ∈ revised.steps)
    {d : String} (hd : d ∈ p.dependsOn ++ refIds p) :
    d ∈ stepIds revised.steps ∨ availableAt s.results d = true := by
  have hknown : d ∈ stepIds revised.steps ∨ d ∈ Results.idsWith s.results StepResult.shouldNotRerun ∨
      d ∈ Results.idsWith s.results StepResult.outputAvailable := by
    rcases List.mem_append.mp hd with hd | hd
    · exact (dep_of_validate h.valid hp hd).2
    · exact ref_of_validate h.valid hp hd
  rcases hknown with hr | hc | ha
  · exact .inl hr
  · obtain ⟨r, hr, hdone⟩ := Results.holdsAt_iff.mp (Results.mem_idsWith.mp hc)
    refine .inr (Results.holdsAt_iff.mpr ⟨r, hr, ?_⟩)
    have hnc := (h.inv.results d r hr).1
    unfold StepResult.shouldNotRerun at hdone
    unfold StepResult.outputAvailable
    cases he : r.execState <;> simp_all
  · exact .inr (Results.mem_idsWith.mp ha)

theorem leads_revised_iff (h : Mergeable cfg s revised) {p : DagStep} (hp : p ∈ revised.steps)
    {d : String} (hd : d ∈ p.dependsOn ++ refIds p) : Leads s revised p d ↔
      (d ∉ stepIds revised.steps → s.canonicalWith revised d = d) ∧
      (d = p.id → s.canonicalWith revised d = d ∧ normalAt s.results d = true) := by
  have hown : p.id ∈ stepIds revised.steps := List.mem_map_of_mem hp
  unfold Leads
  rw [h.available_iff, h.mem_ids_iff]
  by_cases hR : d ∈ stepIds revised.steps
  · by_cases hself : d = p.id
    · have hav : normalAt s.results d = true → availableAt s.results d = true :=
        availableAt_of_normalAt
      subst hself
      simp only [hR, true_or, ne_eq, not_true, and_false, false_or, forall_true_left, false_imp_iff,
        true_and]
      exact and_congr_right fun _ => ⟨And.left, fun hn => ⟨hn, hav hn⟩⟩
    · simp [hR, hself]
  · have hA := (h.named_of_revised hp hd).resolve_left hR
    have hne : d ≠ p.id := by
      rintro rfl
      exact hR hown
    simp only [hR, false_or, hne, ne_eq, not_false_iff, and_true, hA, forall_true_left, false_imp_iff]
    constructor
    · rintro (⟨_, hc, _⟩ | ⟨hc, _⟩) <;> exact hc
    · intro hc
      by_cases hn : d ∈ stepIds s.root.steps ∧ s.canonicalWith revised d = d ∧ normalAt s.results d = false
      · exact .inl hn
      · exact .inr ⟨hc, fun hn' => absurd hn' hn⟩

/-- A root step other than `r` that stays its own canonical step leads on. -/
theorem leads_of_canonical (h : Mergeable cfg s revised) {r : DagStep} {x : String}
    (hx : x ∈ stepIds s.root.steps) (hne : x ≠ r.id) (hc : s.canonicalWith revised x = x) :
    Leads s revised (s.restoreStep revised r) x := by
  unfold Leads
  rw [h.available_iff, h.mem_ids_iff]
  cases hn : normalAt s.results x with
  | false => exact .inl ⟨.inr ⟨hx, hc, rfl⟩, hne⟩
  | true => exact .inr ⟨hc, fun _ => rfl, availableAt_of_normalAt hn⟩

theorem leads_ref_iff (h : Mergeable cfg s revised) {r : DagStep}
    (hres : Restored s revised r) {x : String} (hx : x ∈ stepIds s.root.steps) :
    Leads s revised (s.restoreStep revised r) x ↔
      x ≠ r.id ∧ (x ∈ stepIds revised.steps ∨ s.canonicalWith revised x = x) := by
  constructor
  · intro hl
    unfold Leads at hl
    rw [h.available_iff, h.mem_ids_iff] at hl
    rcases hl with ⟨hm, hne⟩ | ⟨hc, hn, _⟩
    · exact ⟨hne, hm.imp_right fun hm => hm.2.1⟩
    · refine ⟨?_, .inr hc⟩
      rintro rfl
      have := hn (.inr ⟨hx, hc, hres.2.2⟩)
      rw [hres.2.2] at this
      cases this
  · rintro ⟨hne, hR | hc⟩
    · exact .inl ⟨h.mem_ids_iff.mpr (.inl hR), hne⟩
    · exact h.leads_of_canonical hx hne hc

theorem leads_dep_iff (h : Mergeable cfg s revised) {r : DagStep} (hr : r ∈ s.root.steps)
    {d : String} (hd : d ∈ r.dependsOn) :
    Leads s revised (s.restoreStep revised r) (s.canonicalWith revised d) ↔
      (s.canonicalWith revised d ≠ d → s.canonicalWith revised d ∈ stepIds revised.steps ∨
        availableAt s.results (s.canonicalWith revised d) = true) := by
  have hal := h.inv.data.aliases_merge revised
  obtain ⟨hne, hroot⟩ := dep_of_validate (h.inv.data.root_valid h.inRound) hr hd
  have hroot : d ∈ stepIds s.root.steps := by simpa using hroot
  by_cases hc : s.canonicalWith revised d = d
  · simp only [hc, ne_eq, not_true, false_imp_iff, iff_true]
    exact h.leads_of_canonical hroot hne hc
  · have hc' : canonical (s.merge revised).aliases d ≠ d := by
      rwa [h.inv.data.canonical_merge h.inRound]
    have hout := hal.not_root hc'
    have hself := hal.canonical_of_not_root hout
    rw [h.inv.data.canonical_merge h.inRound, h.inv.data.canonical_merge h.inRound] at hself
    rw [h.inv.data.canonical_merge h.inRound] at hout
    have hnid : s.canonicalWith revised d ≠ r.id := by
      intro he
      exact hout (he ▸ List.mem_map_of_mem hr)
    have hid : (s.restoreStep revised r).id = r.id := rfl
    unfold Leads
    rw [h.available_iff, h.mem_ids_iff, hself, hid]
    simp only [hout, false_and, or_false, hnid, hc, ne_eq, not_false_iff, and_true, true_and,
      forall_true_left]
    by_cases hR : s.canonicalWith revised d ∈ stepIds revised.steps <;> simp [hR]

end Mergeable

/-- **When no name dangles.** -/
theorem Mergeable.noDangling_iff (h : Mergeable cfg s revised) :
    NoDangling s revised ↔ RevisedNames s revised ∧ RestoredNames s revised := by
  have hrootRef : ∀ r ∈ s.root.steps, ∀ x ∈ refIds r, x ∈ stepIds s.root.steps := by
    intro r hr x hx
    simpa using ref_of_validate (h.inv.data.root_valid h.inRound) hr hx
  unfold NoDangling
  rw [h.steps_eq]
  constructor
  · refine fun hk => ⟨fun p hp d hd => ?_, fun r hr hres => ⟨fun x hx => ?_, fun d hd => ?_⟩⟩
    · exact (h.leads_revised_iff hp hd).mp (hk p (mem_scheduled.mpr (.inl hp)) d hd)
    · have hp := mem_scheduled.mpr (.inr ⟨r, hr, hres, rfl⟩)
      exact (h.leads_ref_iff hres (hrootRef r hr x hx)).mp (hk _ hp x (List.mem_append_right _ hx))
    · have hp := mem_scheduled.mpr (.inr ⟨r, hr, hres, rfl⟩)
      exact (h.leads_dep_iff hr hd).mp
        (hk _ hp _ (List.mem_append_left _ (List.mem_map_of_mem hd)))
  · rintro ⟨hrev, hres⟩ p hp d hd
    rcases mem_scheduled.mp hp with hp | ⟨r, hr, hr', rfl⟩
    · exact (h.leads_revised_iff hp hd).mpr (hrev p hp d hd)
    · rcases List.mem_append.mp hd with hd | hd
      · obtain ⟨d₀, hd₀, rfl⟩ := List.mem_map.mp hd
        exact (h.leads_dep_iff hr hd₀).mpr ((hres r hr hr').2 d₀ hd₀)
      · exact (h.leads_ref_iff hr' (hrootRef r hr d hd)).mpr ((hres r hr hr').1 d hd)

/-! ### The verdict on the merged plan -/

namespace Mergeable

/-- The steps that are to run fit each other when the revision fits the restored steps. -/
theorem fits_scheduled (h : Mergeable cfg s revised)
    (hfit : ∀ p ∈ revised.steps, ∀ r ∈ s.root.steps, Restored s revised r →
      Fits cfg.registry p r ∧ Fits cfg.registry r p)
    {p q : DagStep} (hp : p ∈ s.scheduled revised) (hq : q ∈ s.scheduled revised) :
    Fits cfg.registry p q := by
  have hroot := h.inv.data.root_valid h.inRound
  rcases mem_scheduled.mp hp with hp | ⟨r, hr, hres, rfl⟩ <;>
    rcases mem_scheduled.mp hq with hq | ⟨r', hr', hres', rfl⟩
  · exact fits_of_validate h.valid hp hq
  · exact (hfit p hp r' hr' hres').1.of_same rfl rfl rfl
  · exact (hfit q hq r hr hres).2
  · have hfits : Fits cfg.registry r r' := fits_of_validate hroot hr hr'
    exact hfits.of_same rfl rfl rfl

/-- A step that is to run passes the checks of a single step. -/
theorem stepErrors_scheduled (h : Mergeable cfg s revised) {p : DagStep}
    (hp : p ∈ s.scheduled revised) (i : ℕ) : stepErrors cfg.registry i p = [] := by
  rcases mem_scheduled.mp hp with hp | ⟨r, hr, _, rfl⟩
  · exact stepErrors_of_validate h.valid hp i
  · exact stepErrors_of_validate (h.inv.data.root_valid h.inRound) hr i

theorem id_ne_scheduled (h : Mergeable cfg s revised) {p : DagStep}
    (hp : p ∈ s.scheduled revised) : p.id ≠ "" := by
  rcases mem_scheduled.mp hp with hp | ⟨r, hr, _, rfl⟩
  · exact id_ne_of_validate h.valid hp
  · have hid := id_ne_of_validate (h.inv.data.root_valid h.inRound) hr
    exact hid

/-- The field of a reference allows references. -/
theorem allowed_scheduled (h : Mergeable cfg s revised) {p : DagStep} (hp : p ∈ s.scheduled revised)
    {x : CollectedRef} (hx : x ∈ stepRefs p) :
    (match cfg.registry.getToolDef p.tool with
      | some td => !td.refAllowed x.topField
      | none => false) = false := by
  rcases mem_scheduled.mp hp with hp | ⟨r, hr, _, rfl⟩
  · exact allowed_of_refErrors (parseOutputRefs_eq_nil_iff.mp (refs_of_validate h.valid) p hp x hx)
  · exact allowed_of_refErrors (parseOutputRefs_eq_nil_iff.mp
      (refs_of_validate (h.inv.data.root_valid h.inRound)) r hr x hx)

theorem nodup_scheduled (h : Mergeable cfg s revised) : (stepIds (s.scheduled revised)).Nodup := by
  unfold State.scheduled stepIds
  rw [List.map_append, List.map_map, List.nodup_append]
  refine ⟨h.revised_nodup, (List.filter_sublist.map _).nodup h.root_nodup, ?_⟩
  rintro a ha b hb rfl
  obtain ⟨r, hr, rfl⟩ := List.mem_map.mp hb
  exact (of_decide_eq_true (List.mem_filter.mp hr).2).2.1 ha

/-- No step that is to run depends on itself. -/
theorem dep_ne_scheduled (h : Mergeable cfg s revised) {p : DagStep} (hp : p ∈ s.scheduled revised)
    {d : String} (hd : d ∈ p.dependsOn) : d ≠ p.id := by
  rcases mem_scheduled.mp hp with hp | ⟨r, hr, _, rfl⟩
  · exact (dep_of_validate h.valid hp hd).1
  · obtain ⟨d₀, hd₀, rfl⟩ := List.mem_map.mp hd
    have hroot := h.inv.data.root_valid h.inRound
    intro he
    have he : s.canonicalWith revised d₀ = r.id := he
    rw [← h.inv.data.canonical_merge h.inRound] at he
    have hmem : canonical (s.merge revised).aliases d₀ ∈ stepIds s.root.steps := by
      rw [he]
      exact List.mem_map_of_mem hr
    have hself := (h.inv.data.aliases_merge revised).eq_of_root hmem
    exact (dep_of_validate hroot hr hd₀).1 (hself.symm.trans he)

/-- **When a plan without dangling names is accepted.** -/
theorem valid_iff (h : Mergeable cfg s revised) (hd : NoDangling s revised) :
    MergeValid cfg s revised ↔ FitTogether cfg s revised := by
  have hne : (s.merge revised).plan.steps ≠ [] := by
    rw [h.steps_eq]
    exact List.append_ne_nil_of_left_ne_nil h.nonempty _
  unfold MergeValid FitTogether
  rw [← h.steps_eq]
  constructor
  · intro hv
    obtain ⟨_, _, hcycle, hlevel⟩ := validateDagStructure_eq_nil (structure_of_validate hv) hne
    refine ⟨hcycle, hlevel, fun p hp r hr hres => ?_⟩
    have hp' : p ∈ (s.merge revised).plan.steps := by
      rw [h.steps_eq]
      exact mem_scheduled.mpr (.inl hp)
    have hr' : s.restoreStep revised r ∈ (s.merge revised).plan.steps := by
      rw [h.steps_eq]
      exact mem_scheduled.mpr (.inr ⟨r, hr, hres, rfl⟩)
    have hfits := fits_of_validate hv hr' hp'
    exact ⟨(fits_of_validate hv hp' hr').of_same rfl rfl rfl, hfits⟩
  · rintro ⟨hcycle, hlevel, hfit⟩
    have hin : ∀ {p}, p ∈ (s.merge revised).plan.steps → p ∈ s.scheduled revised := by
      rw [h.steps_eq]
      exact id
    have hn : (stepIds (s.merge revised).plan.steps).Nodup := by
      rw [h.steps_eq]
      exact h.nodup_scheduled
    refine validate_eq_nil_iff.mpr (.inr ⟨?_, ?_, ?_, ?_, ?_⟩)
    · rw [List.flatMap_eq_nil_iff]
      exact fun si hsi => h.stepErrors_scheduled (hin (List.fst_mem_of_mem_zipIdx hsi)) si.2
    · refine validateDagStructure_of (fun p hp => h.id_ne_scheduled (hin hp)) hn ?_ hcycle hlevel
      refine fun p hp d hpd => ⟨h.dep_ne_scheduled (hin hp) hpd, ?_⟩
      refine (hd p hp d (List.mem_append_left _ hpd)).imp And.left fun ha => ?_
      exact List.mem_append_right _ (Results.mem_idsWith.mpr ha)
    · rw [parseOutputRefs_eq_nil_iff]
      intro p hp x hx
      have hleads := hd p hp x.ref.stepId (List.mem_append_right _ (List.mem_map_of_mem hx))
      by_cases hx' : x.ref.stepId ∈ stepIds (s.merge revised).plan.steps
      · obtain ⟨q, hq, hid⟩ := List.mem_map.mp hx'
        have hget : (stepMap (s.merge revised).plan.steps).get? x.ref.stepId = some q := by
          rw [← hid]
          exact get?_stepMap hn hq
        rw [refErrors_target (by simp [mem_keys_stepMap, hx']) hget hid.symm rfl rfl]
        exact (h.fits_scheduled hfit (hin hp) (hin hq)).1 x hx hid.symm
      · have ha := hleads.resolve_left fun hc => hx' hc.1
        refine refErrors_external ?_ ?_ (h.allowed_scheduled (hin hp) hx)
        · exact List.mem_append_right _ (Results.mem_idsWith.mpr ha)
        · rw [Lib.Dict.get?_eq_none_iff, mem_keys_stepMap]
          exact hx'
    · have hdecl := ((validate_eq_nil_iff.mp h.valid).resolve_left h.nonempty).2.2.2.1
      refine declaredErrors_mono hdecl ?_
      intro p hp
      show p ∈ (s.merge revised).plan.steps
      rw [h.steps_eq]
      exact mem_scheduled.mpr (.inl hp)
    · rw [checkDangerousCombinations_eq_nil_iff]
      exact fun p hp q hq => (h.fits_scheduled hfit (hin hp) (hin hq)).2

end Mergeable

theorem plannerAccepts_valid {revised : DagPlan} (h : plannerAccepts cfg s revised = true) :
    validate cfg.registry revised (Results.idsWith s.results StepResult.shouldNotRerun)
      (Results.idsWith s.results StepResult.outputAvailable) = [] := by
  unfold plannerAccepts at h
  rw [Bool.or_eq_true, List.isEmpty_iff, List.isEmpty_iff] at h
  exact h.elim (fun he => validate_eq_nil_iff.mpr (.inl he)) id

/-- **A merge leaves no dangling name and is accepted exactly when** neither the steps of the
revision nor the restored ones name a replaced step, and both fit together. -/
theorem merge_sound_iff (plan : DagPlan) (contracts : List DeliveryContract)
    (h : Lib.Reaches (processStep cfg) (State.fresh plan contracts) s) (hin : s.pc.inRound = true)
    (hne : revised.steps ≠ []) (hacc : plannerAccepts cfg s revised = true) :
    (NoDangling s revised ∧ MergeValid cfg s revised) ↔
      RevisedNames s revised ∧ RestoredNames s revised ∧ FitTogether cfg s revised := by
  have hm : Mergeable cfg s revised :=
    ⟨processInv_of_reaches h, hin, plannerAccepts_valid hacc, hne⟩
  rw [← and_assoc, ← hm.noDangling_iff]
  exact and_congr_right fun hd => hm.valid_iff hd

end names

/-! ### A reference left behind -/

section scenario
attribute [local instance] asciiPy

/-- Write a file and mention its path in another one. -/
def mentionPlan : DagPlan :=
  { steps := [writeStep "save" "a.txt" "hi" [], writeStep "mention" "b.txt" "see $save.path" ["save"]] }

/-- The first write fails. -/
def saveFails : List Move :=
  List.map .inner (.enter "p" :: playLayer 1 [("save", refused "disk full")])

/-- A replacement of the failed write alone. -/
def saveElsewhere : DagPlan := { steps := [writeStep "save2" "c.txt" "hi" []] }

/-- The second write is restored, depends on the replacement and still refers to the original,
and the merged plan is rejected. -/
theorem restored_step_refers_to_replaced : ∃ s,
    Lib.Reaches (processStep fileConfig) (State.fresh mentionPlan []) s ∧ s.pc.inRound = true ∧
      plannerAccepts fileConfig s saveElsewhere = true ∧ ¬NoDangling s saveElsewhere ∧
      ¬MergeValid fileConfig s saveElsewhere := by
  obtain ⟨s, hs, hp⟩ := Lib.exists_reaches_of_run (processStep fileConfig) saveFails
    (State.fresh mentionPlan []) (fun s => s.pc.inRound && plannerAccepts fileConfig s saveElsewhere &&
      !decide (NoDangling s saveElsewhere) && !decide (MergeValid fileConfig s saveElsewhere))
    (by decide +kernel)
  refine ⟨s, hs, ?_⟩
  simpa [and_assoc] using hp

/-- A replacement and a new version of the step that used the original. -/
def saveAndMention : DagPlan :=
  { steps := [writeStep "save2" "c.txt" "hi" [],
      writeStep "mention" "b.txt" "see $save2.path" ["save2"]] }

/-- The revision lists the second write again, with a reference to the replacement. -/
theorem relisted_step_leaves_nothing_dangling : ∃ s,
    Lib.Reaches (processStep fileConfig) (State.fresh mentionPlan []) s ∧
      NoDangling s saveAndMention ∧ MergeValid fileConfig s saveAndMention := by
  obtain ⟨s, hs, hp⟩ := Lib.exists_reaches_of_run (processStep fileConfig) saveFails
    (State.fresh mentionPlan []) (fun s => s.pc.inRound && plannerAccepts fileConfig s saveAndMention &&
      decide (RevisedNames s saveAndMention) && decide (RestoredNames s saveAndMention) &&
      decide (FitTogether fileConfig s saveAndMention)) (by decide +kernel)
  simp only [Bool.and_eq_true, decide_eq_true_eq] at hp
  obtain ⟨⟨⟨⟨hin, hacc⟩, h1⟩, h2⟩, h3⟩ := hp
  exact ⟨s, hs, (merge_sound_iff mentionPlan [] hs hin (by simp [saveAndMention]) hacc).mpr ⟨h1, h2, h3⟩⟩

end scenario
end JAgent
