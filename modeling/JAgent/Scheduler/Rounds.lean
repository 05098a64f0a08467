import JAgent.Scheduler.Invariants

/-! # Rounds and the downstream gate

One round executes the layers of one plan.  The gate of a step looks only at results that are
present, so it is sound because no dependency can be absent: every step of an earlier layer has
a result (`Layered`), and inside a layer every step is either still waiting or has one
(`RoundInv`).  From this, whenever the Tool Layer is called for a step, all its dependencies are
normal (`deps_normal_of_call`). -/

namespace JAgent

/-! ### The steps of a layer that are still open -/

/-- The steps of a layer that may still be called. -/
def Phase.live (layer : List String) : Phase → List String
  | .gating _ _ | .starting _ _ => layer
  | .executing toRun _ => toRun
  | .settling todo pending _ => pending.map Prod.fst ++ todo.map Prod.fst
  | .confirming todo _ | .paused todo _ | .retrying todo _ _ | .retried todo _ _ => todo.map Prod.fst

/-- The steps of a layer that may still be without a result. -/
def Phase.waiting (layer : List String) : Phase → List String
  | .gating _ toSkip | .starting _ toSkip => layer.filter fun sid => !toSkip.contains sid
  | .executing toRun _ => toRun
  | .settling todo _ _ => todo.map Prod.fst
  | _ => []

/-- The steps of a layer whose gate has not been looked at. -/
def Phase.ungated : Phase → List String
  | .gating todo _ => todo
  | _ => []

section phases
variable {layer : List String} {ph ph' : Phase} {sid : String} {step : DagStep}

theorem CallMove.live_eq (h : CallMove sid step ph ph') : ph'.live layer = ph.live layer := by
  cases h <;> rfl

theorem CallMove.waiting_eq (h : CallMove sid step ph ph') :
    ph'.waiting layer = ph.waiting layer := by
  cases h <;> rfl

theorem CallMove.mem_live (h : CallMove sid step ph ph') : sid ∈ ph.live layer := by
  cases h with
  | first hmem => exact hmem
  | retry cid todo retries => simp [Phase.live]

theorem CallMove.ungated_eq (h : CallMove sid step ph ph') : ph'.ungated = ph.ungated := by
  cases h <;> rfl

theorem LayerOver.waiting (h : LayerOver ph) : ph.waiting layer = [] := by
  cases h <;> rfl

variable [Py]

theorem PhaseMove.live_sublist (h : PhaseMove layer ph ph') :
    (ph'.live layer).Sublist (ph.live layer) := by
  cases h with
  | startDone toSkip => exact List.filter_sublist
  | gather htodo _ => simp [Phase.live, htodo]
  | suspend pending failed => simp [Phase.live]
  | _ => exact List.Sublist.refl _

theorem PhaseMove.ungated_subset (h : PhaseMove layer ph ph') : ph'.ungated ⊆ ph.ungated := by
  cases h with
  | gatePass sid todo toSkip => exact List.subset_cons_self sid todo
  | _ => exact List.nil_subset _

theorem PhaseMove.waiting_eq (h : PhaseMove layer ph ph') :
    ph'.waiting layer = ph.waiting layer := by
  cases h with
  | gather htodo _ => exact htodo
  | _ => rfl

end phases

/-! ### The round invariant -/

section rounds
variable {cfg : Config} {s t : State} {c : Choice}

/-- The layers are those of the current plan, and what is behind them has results. -/
structure Layered (s : State) (k : Round) (layers : List (List String)) : Prop where
  sorted : ∃ external, topologicalSort s.plan k.completed external = .ok layers
  completed : ∀ sid ∈ k.completed, sid ∈ s.results.keys
  done : ∀ sid ∈ k.done.flatten, sid ∈ s.results.keys

/-- The steps of the current layer: those that may be called or gated belong to it, and those
that are not waiting have results. -/
structure InLayer (s : State) (k : Round) (layer : List String) (ph : Phase) : Prop
    extends Layered s k (k.done ++ layer :: k.rest) where
  live : (ph.live layer).Sublist layer
  ungated : ph.ungated ⊆ layer
  present : ∀ sid ∈ layer, sid ∈ ph.waiting layer ∨ sid ∈ s.results.keys

/-- The invariant of a round. -/
structure RoundInv (s : State) : Prop where
  layers : ∀ k, s.pc = .layers k → Layered s k (k.done ++ k.rest)
  inLayer : ∀ k layer ph, s.pc = .inLayer k layer ph → InLayer s k layer ph

/-- Results are only added, the plan stays. -/
theorem Layered.mono {k : Round} {layers : List (List String)} (h : Layered s k layers)
    (hplan : t.plan = s.plan) (hkeys : s.results.keys ⊆ t.results.keys) : Layered t k layers := by
  refine ⟨?_, fun sid hs => hkeys (h.completed sid hs), fun sid hs => hkeys (h.done sid hs)⟩
  rw [hplan]
  exact h.sorted

/-- Outside the layer loop there is nothing to maintain. -/
theorem RoundInv.of_other (h1 : ∀ k, s.pc ≠ .layers k)
    (h2 : ∀ k layer ph, s.pc ≠ .inLayer k layer ph) : RoundInv s :=
  ⟨fun k h => absurd h (h1 k), fun k layer ph h => absurd h (h2 k layer ph)⟩

theorem RoundInv.of_plain (h : s.pc.plain = true) : RoundInv s := by
  refine .of_other ?_ ?_ <;> intros <;> intro hpc <;> rw [hpc] at h <;> cases h

theorem RoundInv.of_inLayer {k : Round} {layer : List String} {ph : Phase}
    (hpc : s.pc = .inLayer k layer ph) (h : InLayer s k layer ph) : RoundInv s := by
  refine ⟨fun k' h' => ?_, fun k' layer' ph' h' => ?_⟩
  · rw [hpc] at h'
    cases h'
  · rw [hpc] at h'
    cases h'
    exact h

theorem RoundInv.start (plan : DagPlan) (results : Results) (contracts : List DeliveryContract)
    (log : List Event) (hist : List Obs) : RoundInv (State.start plan results contracts log hist) :=
  .of_other (by simp [State.start]) (by simp [State.start])

theorem keys_subset_set (results : Results) (sid : String) (r : StepResult) :
    results.keys ⊆ (results.set sid r).keys :=
  fun _ h => Lib.Dict.mem_keys_set.mpr (.inr h)

/-- Settling a step gives it a result. -/
theorem InLayer.set {k : Round} {layer : List String} {ph ph' : Phase} {sid : String} {r : StepResult}
    (h : InLayer s k layer ph) (hplan : t.plan = s.plan) (hres : t.results = s.results.set sid r)
    (hlive : (ph'.live layer).Sublist (ph.live layer)) (hgate : ph'.ungated ⊆ ph.ungated)
    (hwait : ∀ x ∈ ph.waiting layer, x = sid ∨ x ∈ ph'.waiting layer) : InLayer t k layer ph' := by
  have hkeys : s.results.keys ⊆ t.results.keys := hres ▸ keys_subset_set s.results sid r
  refine ⟨h.toLayered.mono hplan hkeys, hlive.trans h.live, List.Subset.trans hgate h.ungated, fun x hx => ?_⟩
  rcases h.present x hx with hw | hp
  · rcases hwait x hw with rfl | hw
    · refine .inr ?_
      rw [hres]
      exact Lib.Dict.mem_keys_set.mpr (.inl rfl)
    · exact .inl hw
  · exact .inr (hkeys hp)

variable [Py]

/-- **One move keeps the round invariant.** -/
theorem RoundInv.trans (h : RoundInv s) (ht : Trans cfg s c t) : RoundInv t := by
  cases ht with
  | quiet hp _ _ => exact .of_plain hp
  | heal _ _ _ => exact .of_other (by simp) (by simp)
  | foreign _ =>
      exact ⟨fun k hpc => (h.layers k hpc).mono rfl (List.Subset.refl _), fun k layer ph hpc =>
        have hl := h.inLayer k layer ph hpc
        ⟨hl.toLayered.mono rfl (List.Subset.refl _), hl.live, hl.ungated, hl.present⟩⟩
  | enter _ _ hsort _ =>
      refine ⟨?_, by simp⟩
      rintro k ⟨⟩
      refine ⟨⟨_, hsort⟩, fun sid hs => ?_, by simp⟩
      obtain ⟨r, hr, _⟩ := Results.holdsAt_iff.mp (Results.mem_idsWith.mp hs)
      exact Lib.Dict.mem_keys_iff.mpr ⟨r, hr⟩
  | nextLayer hpc hrest =>
      have hl := h.layers _ hpc
      rw [hrest] at hl
      refine .of_inLayer rfl ⟨⟨hl.sorted, hl.completed, hl.done⟩, List.Sublist.refl _,
        List.Subset.refl _, fun sid hs => ?_⟩
      exact .inl (by simpa [Phase.waiting] using hs)
  | move hpc hm _ =>
      have hl := h.inLayer _ _ _ hpc
      exact .of_inLayer rfl ⟨hl.toLayered.mono rfl (List.Subset.refl _), hm.live_sublist.trans hl.live,
        List.Subset.trans hm.ungated_subset hl.ungated, hm.waiting_eq ▸ hl.present⟩
  | gateSkip hpc _ _ =>
      refine .of_inLayer rfl ((h.inLayer _ _ _ hpc).set rfl rfl (List.Sublist.refl _)
        (List.subset_cons_self _ _) fun x hx => ?_)
      simp only [Phase.waiting, List.mem_filter, Bool.not_eq_true', List.contains_eq_mem,
        decide_eq_false_iff_not, List.mem_append, List.mem_singleton] at hx ⊢
      tauto
  | call hpc hc _ =>
      have hl := h.inLayer _ _ _ hpc
      exact .of_inLayer rfl ⟨hl.toLayered.mono rfl (List.Subset.refl _), hc.live_eq ▸ hl.live,
        hc.ungated_eq ▸ hl.ungated, hc.waiting_eq ▸ hl.present⟩
  | settle hpc =>
      refine .of_inLayer rfl ((h.inLayer _ _ _ hpc).set rfl rfl ?_ (List.Subset.refl _) fun x hx => ?_)
      · simp only [Phase.live, List.map_cons]
        split <;> simp
      · simpa [Phase.waiting] using hx
  | settleRetry hpc =>
      exact .of_inLayer rfl ((h.inLayer _ _ _ hpc).set rfl rfl (by simp [Phase.live])
        (List.Subset.refl _) (by simp [Phase.waiting]))
  | layerDone hpc hover =>
      have hl := h.inLayer _ _ _ hpc
      refine ⟨?_, by simp⟩
      rintro k ⟨⟩
      refine ⟨by simpa using hl.sorted, hl.completed, fun sid hs => ?_⟩
      rw [List.flatten_append, List.mem_append, List.flatten_singleton] at hs
      rcases hs with hs | hs
      · exact hl.done sid hs
      · exact (hl.present sid hs).resolve_left (by simp [hover.waiting])
  | repair _ _ => exact .of_other (by simp) (by simp)
  | accept _ _ _ hpc' =>
      rcases hpc' with hp | ⟨_, site, k, rfl⟩
      · exact .of_plain hp
      · exact .of_other (by simp) (by simp)
  | mergeFail _ | mergeAnnounce _ => exact .of_other (by simp) (by simp)
  | mergeAdopt _ | announce _ _ => exact .of_other (by simp [adopt]) (by simp [adopt])

/-! ### Gate soundness -/

/-- A step is called only with normal dependencies. -/
theorem deps_normal_of_call {k : Round} {layer : List String} {ph ph' : Phase} {sid : String}
    {step : DagStep} {input : Obj} (hdata : DataInv cfg s) (hround : RoundInv s)
    (hpc : s.pc = .inLayer k layer ph) (hc : CallMove sid step ph ph')
    (hprep : prepareStep cfg.registry s.plan s.results sid = .call step input) {d : String}
    (hd : d ∈ step.dependsOn) : normalAt s.results d = true := by
  have hl := hround.inLayer k layer ph hpc
  obtain ⟨hmem, rfl, hgate, _⟩ := prepareStep_call hprep
  have hlayer : step.id ∈ layer := hl.live.subset hc.mem_live
  have hplan : d ∈ stepIds s.plan.steps := by
    have := (dep_of_validate (hdata.plan (by rw [hpc]; rfl)) hmem hd).2
    simpa using this
  -- the dependency was done before the round, or lies in a settled layer
  have hpresent : d ∈ s.results.keys := by
    by_cases hcompl : d ∈ k.completed
    · exact hl.completed d hcompl
    · obtain ⟨external, hsort⟩ := hl.sorted
      exact hl.done d (dep_of_topologicalSort hsort rfl hmem hlayer hd hplan hcompl)
  obtain ⟨r, hr⟩ := Lib.Dict.mem_keys_iff.mp hpresent
  exact Results.holdsAt_iff.mpr ⟨r, hr, normal_of_gate hgate hd hr⟩

/-- Every call so far was made with normal dependencies. -/
def GateSound (s : State) : Prop :=
  ∀ step input seen, .call step input seen ∈ s.hist → ∀ d ∈ step.dependsOn, normalAt seen d = true

/-- What the history gains in one move. -/
theorem Trans.call_mem (ht : Trans cfg s c t) {step : DagStep} {input : Obj} {seen : Results}
    (h : .call step input seen ∈ t.hist) : .call step input seen ∈ s.hist ∨
      ∃ k layer ph ph' sid, s.pc = .inLayer k layer ph ∧ CallMove sid step ph ph' ∧
        prepareStep cfg.registry s.plan s.results sid = .call step input ∧ seen = s.results := by
  cases ht with
  | call hpc hc hprep =>
      rcases List.mem_append.mp h with h | h
      · exact .inl h
      · rw [List.mem_singleton] at h
        cases h
        exact .inr ⟨_, _, _, _, _, hpc, hc, hprep, rfl⟩
  | settle _ => exact .inl (by simpa [settleState, State.observe, State.emit] using h)
  | settleRetry _ => exact .inl (by simpa [JAgent.settleRetry, State.observe, State.emit] using h)
  | repair _ _ => exact .inl (by simpa using h)
  | mergeAdopt _ | announce _ _ => exact .inl (by simpa [adopt, State.observe, State.emit] using h)
  | _ => exact .inl h

/-- **Gate soundness.**  In every run, from any initial results, the Tool Layer is called for a
step only when every dependency of the step has a normal result. -/
theorem tool_called_only_with_normal_dependencies (plan : DagPlan) (results : Results)
    (contracts : List DeliveryContract) (log : List Event) {s : State}
    (h : Lib.Reaches (step cfg) (State.start plan results contracts log []) s) : GateSound s := by
  have hinv : DataInv cfg s ∧ RoundInv s ∧ GateSound s := by
    apply h.invariant
    · exact ⟨.start .., .start .., by simp [GateSound, State.start]⟩
    rintro t u c _ ⟨hd, hr, hg⟩ hs
    have ht := step_trans hs
    refine ⟨hd.trans ht, hr.trans ht, fun step input seen hmem d hdep => ?_⟩
    rcases ht.call_mem hmem with hold | ⟨k, layer, ph, ph', sid, hpc, hc, hprep, rfl⟩
    · exact hg step input seen hold d hdep
    · exact deps_normal_of_call hd hr hpc hc hprep hdep
  exact hinv.2.2

end rounds

section copying
attribute [local instance] asciiPy

/-- Read a file, then write what was read to another one. -/
def copyPlan : DagPlan :=
  { steps := [fileStep "read" "read" "a.txt" [], writeStep "copy" "b.txt" "$read.content" ["read"]] }

/-- A read that succeeds, then the write. -/
def copyScript : List Choice :=
  Choice.enter "p" :: playLayer 1 [("read", answered (.obj [("content", .str "hi")]))] ++
    playLayer 1 [("copy", answered (.obj [("success", .bool true)]))]

theorem copy_called_after_read : ∃ s, Lib.Reaches (step fileConfig) (State.start copyPlan .empty [] [] []) s ∧
    (s.hist.any fun o => match o with
      | .call st _ seen => st.id = "copy" && normalAt seen "read"
      | _ => false) = true ∧ GateSound s := by
  obtain ⟨s, hs, hcall⟩ := Lib.exists_reaches_of_run (step fileConfig) copyScript
    (State.start copyPlan .empty [] [] []) (fun s => s.hist.any fun o => match o with
      | .call st _ seen => st.id = "copy" && normalAt seen "read"
      | _ => false) (by decide +kernel)
  exact ⟨s, hs, hcall, tool_called_only_with_normal_dependencies copyPlan .empty [] [] hs⟩

end copying
end JAgent
