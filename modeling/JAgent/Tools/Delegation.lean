import JAgent.Tools.Skills

/-! # What a Skill's calls may do

Two guarantees of the tool layer, for every interleaving of the executions of any number of runs.

An invocation of `file_op` or `fetch_output` should act on the backend of its own run only.  It does when
the context has a backend; without one the shared tool object still holds the backend it was given last,
and the invocation acts on that (`nested_call_writes_elsewhere`).  `backends_stay_with_their_run` says
exactly when no invocation of a scenario does.

No tool outside the workspace's list should be invoked.  The guardrails see to that for the tools of
steps; a nested execution has no list, so a Skill can call any tool (`skill_calls_refused_tool`).
`whitelist_holds` is the guarantee for runs whose Skills call only tools on the list. -/

namespace JAgent
open Lib

variable {B W : Type} {reg : ToolRegistry} {s t : ToolLayer B} {m : LayerMove B W}

/-! ### Steps -/

/-- Where a frame after a move comes from. -/
inductive FrameOrigin (reg : ToolRegistry) (s : ToolLayer B) (m : LayerMove B W) : Frame B → Prop
  | kept {f : Frame B} : f ∈ s.frames → FrameOrigin reg s m f
  | fresh {f : Frame B} : f.scope = f.allowed → f.context = f.passed → f.stage = .checking →
      FrameOrigin reg s m f
  | passed {f : Frame B} {g : GuardrailRunner W} {log : Log} {w : W} : f ∈ s.frames →
      f.stage = .checking → guardsPass g f.tool.td f.input log w f.scope = true →
      FrameOrigin reg s m { f with stage := .ready }
  | entered {f : Frame B} : f ∈ s.frames → f.stage ≠ .checking →
      FrameOrigin reg s m { f with stage := .inside }
  | called {i : ℕ} {name : String} {input : Obj} {f f' : Frame B} : m = .call i name input →
      s.frames[i]? = some f → ToolLayer.opened reg f name input = some f' → FrameOrigin reg s m f'

theorem origin_of_step [Py] (hs : layerStep reg s m = some t) {f : Frame B} (hf : f ∈ t.frames) :
    FrameOrigin reg s m f := by
  cases m with
  | execute runId name input allowed backend =>
      obtain ⟨tool, -, rfl⟩ := Option.map_eq_some_iff.mp hs
      rcases List.mem_append.mp hf with hf | hf
      · exact .kept hf
      · rw [List.mem_singleton.mp hf]
        exact .fresh rfl rfl rfl
  | pass i g log w =>
      obtain ⟨f₀, hf₀, hs⟩ := Option.bind_eq_some_iff.mp hs
      split_ifs at hs with hok
      cases hs
      simp only [Bool.and_eq_true, decide_eq_true_eq] at hok
      rcases List.mem_or_eq_of_mem_set hf with hf | rfl
      · exact .kept hf
      · exact .passed (List.mem_of_getElem? hf₀) hok.1 hok.2
  | invoke i =>
      obtain ⟨f₀, hf₀, hs⟩ := Option.bind_eq_some_iff.mp hs
      split_ifs at hs with hstage
      cases hs
      rcases List.mem_or_eq_of_mem_set hf with hf | rfl
      · exact .kept hf
      · exact .entered (List.mem_of_getElem? hf₀) hstage
  | call i name input =>
      obtain ⟨f₀, hf₀, hs⟩ := Option.bind_eq_some_iff.mp hs
      obtain ⟨f', hf', rfl⟩ := Option.map_eq_some_iff.mp hs
      rcases List.mem_append.mp hf with hf | hf
      · exact .kept hf
      · rw [List.mem_singleton.mp hf]
        exact .called rfl hf₀ hf'
  | leave i =>
      cases hs
      exact .kept (List.mem_of_mem_eraseIdx hf)

/-- Only an invocation is recorded, and it is made by a frame that has passed the guardrails. -/
theorem invoked_of_step [Py] (hs : layerStep reg s m = some t) :
    (t.invoked = s.invoked ∧ ∀ i, m ≠ .invoke i) ∨ ∃ i f, m = .invoke i ∧ s.frames[i]? = some f ∧
      f.stage ≠ .checking ∧ t.invoked = s.invoked ++ [s.invoke f] := by
  cases m with
  | execute runId name input allowed backend =>
      obtain ⟨tool, -, rfl⟩ := Option.map_eq_some_iff.mp hs
      exact .inl ⟨rfl, nofun⟩
  | pass i g log w =>
      obtain ⟨f, -, hs⟩ := Option.bind_eq_some_iff.mp hs
      split_ifs at hs
      cases hs
      exact .inl ⟨rfl, nofun⟩
  | invoke i =>
      obtain ⟨f, hf, hs⟩ := Option.bind_eq_some_iff.mp hs
      split_ifs at hs with hstage
      cases hs
      exact .inr ⟨i, f, rfl, hf, hstage, rfl⟩
  | call i name input =>
      obtain ⟨f, -, hs⟩ := Option.bind_eq_some_iff.mp hs
      obtain ⟨f', -, rfl⟩ := Option.map_eq_some_iff.mp hs
      exact .inl ⟨rfl, nofun⟩
  | leave i =>
      cases hs
      exact .inl ⟨rfl, nofun⟩

/-- A call from inside a Skill stays in its run, has the Skill's context or none, and calls the tool
it names. -/
theorem opened_cases {f f' : Frame B} {name : String} {input : Obj}
    (h : ToolLayer.opened reg f name input = some f') :
    f'.tool.name = name ∧ f'.allowed = f.allowed ∧ f'.passed = f.passed ∧
      (f'.context = none ∨ f'.context = f.context) := by
  unfold ToolLayer.opened at h
  split at h
  · rename_i td layer htool
    split_ifs at h with hok
    obtain ⟨tool, htool, rfl⟩ := Option.map_eq_some_iff.mp h
    have hname := ToolRegistry.name_get? htool
    unfold ToolLayer.nested
    split_ifs
    · exact ⟨hname, rfl, rfl, .inl rfl⟩
    · exact ⟨hname, rfl, rfl, .inr rfl⟩
  · cases h
  · cases h
  · cases h

/-! ### Backends -/

/-- The backend that an invocation acts on. -/
def ToolAct.backend? : ToolAct B → Option B
  | .acts b _ _ _ => some b
  | .raises _ | .answers _ => none

/-- An invocation of `file_op` or `fetch_output` acts on no backend but that of its run, and fails when
the run has none. -/
def Invocation.Isolated (v : Invocation B) : Prop :=
  ∀ a, v.act = some a →
    (∀ b, a.backend? = some b → v.passed = some b) ∧ (v.passed = none → a.failed = true)

/-- The tool would act on the backend it holds. -/
def Tool.usesBackend [Py] (tool : Tool) (input : Obj) : Bool :=
  (tool.run (some ()) input).any fun a => a.backend?.isSome

/-- When a tool is called that would act on its backend, the context has one, or the tool object holds
none or that of the run. -/
def ownBackend [Py] [DecidableEq B] (s : ToolLayer B) : LayerMove B W → Bool
  | .invoke i => (s.frames[i]?).all fun f => !f.tool.usesBackend f.input || f.context.isSome ||
      (s.held.get? f.tool.name).all fun b => f.passed = some b
  | _ => true

section Run
variable [Py] {input : Obj} {tool : Tool} {a : ToolAct B}

/-- Without a backend the invocation fails. -/
theorem Tool.run_none (h : tool.run none input = some a) : a.backend? = none ∧ a.failed = true := by
  cases tool with
  | fileOp =>
      cases h
      exact ⟨rfl, rfl⟩
  | fetchOutput =>
      cases h
      exact ⟨rfl, rfl⟩
  | skill td layer => cases h
  | other td => cases h

theorem FileOpTool.run_some (b : B) (input : Obj) :
    (Tool.fileOp.usesBackend input = true → (FileOpTool.run (some b) input).backend? = some b) ∧
      (Tool.fileOp.usesBackend input = false → (FileOpTool.run (some b) input).backend? = none ∧
        (FileOpTool.run (some b) input).failed = true) := by
  simp only [Tool.usesBackend, Tool.run, Option.any_some, FileOpTool.run]
  cases fileOperationOf ((Obj.get? input "operation").getD .null) with
  | none => exact ⟨nofun, fun _ => ⟨rfl, rfl⟩⟩
  | some op =>
      cases Obj.get? input "path" with
      | none => exact ⟨nofun, fun _ => ⟨rfl, rfl⟩⟩
      | some path => exact ⟨fun _ => rfl, nofun⟩

theorem FetchOutputTool.run_some (b : B) (input : Obj) :
    (Tool.fetchOutput.usesBackend input = true →
        (FetchOutputTool.run (some b) input).backend? = some b) ∧
      (Tool.fetchOutput.usesBackend input = false →
        (FetchOutputTool.run (some b) input).backend? = none ∧
          (FetchOutputTool.run (some b) input).failed = true) := by
  simp only [Tool.usesBackend, Tool.run, Option.any_some, FetchOutputTool.run]
  by_cases hop : fetchOperationOf input ≠ .str "fetch"
  · simp only [if_pos hop]
    exact ⟨nofun, fun _ => ⟨rfl, rfl⟩⟩
  · simp only [if_neg hop]
    cases isValidBlobRef (refOf input) with
    | true => exact ⟨fun _ => rfl, nofun⟩
    | false => exact ⟨nofun, fun _ => ⟨rfl, rfl⟩⟩

/-- With a backend the invocation acts on it, or fails without touching it. -/
theorem Tool.run_some {b : B} (h : tool.run (some b) input = some a) :
    (tool.usesBackend input = true → a.backend? = some b) ∧
      (tool.usesBackend input = false → a.backend? = none ∧ a.failed = true) := by
  cases tool with
  | fileOp =>
      cases h
      exact FileOpTool.run_some b input
  | fetchOutput =>
      cases h
      exact FetchOutputTool.run_some b input
  | skill td layer => cases h
  | other td => cases h

/-- A tool that uses its backend records what it does. -/
theorem Tool.exists_run (h : tool.usesBackend input = true) (backend : Option B) :
    ∃ a, tool.run backend input = some a := by
  cases tool with
  | fileOp => exact ⟨_, rfl⟩
  | fetchOutput => exact ⟨_, rfl⟩
  | skill td layer => cases h
  | other td => cases h

end Run

section Isolation
variable [Py] {f : Frame B}

/-- The context of a frame has no backend but that of its run. -/
def Frame.Own (f : Frame B) : Prop := f.context = none ∨ f.context = f.passed

theorem isolated_of_not_uses (h : f.tool.usesBackend f.input = false) : (s.invoke f).Isolated := by
  intro a ha
  have hrun : f.tool.run (s.backendOf f) f.input = some a := ha
  have hcase : a.backend? = none ∧ a.failed = true := by
    cases hb : s.backendOf f with
    | none =>
        rw [hb] at hrun
        exact Tool.run_none hrun
    | some b =>
        rw [hb] at hrun
        exact (Tool.run_some hrun).2 h
  exact ⟨fun b hb => by simp [hcase.1] at hb, fun _ => hcase.2⟩

theorem isolated_of_none (h : s.backendOf f = none) : (s.invoke f).Isolated := by
  intro a ha
  have hrun : f.tool.run (s.backendOf f) f.input = some a := ha
  rw [h] at hrun
  have hcase := Tool.run_none hrun
  exact ⟨fun b hb => by simp [hcase.1] at hb, fun _ => hcase.2⟩

/-- An invocation that acts on a backend is isolated when that is the run's. -/
theorem isolated_iff_of_uses {b : B} (huse : f.tool.usesBackend f.input = true)
    (h : s.backendOf f = some b) : (s.invoke f).Isolated ↔ f.passed = some b := by
  obtain ⟨a, ha⟩ := Tool.exists_run huse (s.backendOf f)
  have hact : a.backend? = some b := by
    rw [h] at ha
    exact (Tool.run_some ha).1 huse
  constructor
  · intro hiso
    exact (hiso a ha).1 b hact
  · intro hpassed a' ha'
    cases ha.symm.trans ha'
    refine ⟨fun b' hb' => ?_, fun hnone => ?_⟩
    · rw [hact] at hb'
      cases hb'
      exact hpassed
    · rw [show (s.invoke f).passed = f.passed from rfl, hpassed] at hnone
      cases hnone

variable [DecidableEq B]

theorem isolated_iff {i : ℕ} (hf : s.frames[i]? = some f) (hown : f.Own) :
    (s.invoke f).Isolated ↔ ownBackend s (.invoke i : LayerMove B W) = true := by
  simp only [ownBackend, hf, Option.all_some]
  cases huse : f.tool.usesBackend f.input with
  | false => simpa using isolated_of_not_uses huse
  | true =>
      simp only [Bool.not_true, Bool.false_or]
      cases hctx : f.context with
      | some b =>
          have hb : s.backendOf f = some b := by simp [ToolLayer.backendOf, hctx]
          rw [isolated_iff_of_uses huse hb]
          have hpassed : some b = f.passed := by simpa [Frame.Own, hctx] using hown
          simp [← hpassed]
      | none =>
          cases hheld : s.held.get? f.tool.name with
          | none => simpa using isolated_of_none (by simp [ToolLayer.backendOf, hctx, hheld])
          | some b =>
              have hb : s.backendOf f = some b := by simp [ToolLayer.backendOf, hctx, hheld]
              rw [isolated_iff_of_uses huse hb]
              simp

omit [DecidableEq B] in
theorem own_of_step (h : ∀ f ∈ s.frames, f.Own) (hs : layerStep reg s m = some t) :
    ∀ f ∈ t.frames, f.Own := by
  intro f hf
  cases origin_of_step hs hf with
  | kept hf => exact h f hf
  | fresh hscope hctx hstage => exact .inr hctx
  | @passed f₀ g log w hf₀ hstage hg => exact h f₀ hf₀
  | @entered f₀ hf₀ hstage => exact h f₀ hf₀
  | called hm hf₀ hopen =>
      obtain ⟨-, -, hpassed, hctx⟩ := opened_cases hopen
      rcases hctx with hnone | hsame
      · exact .inl hnone
      · unfold Frame.Own
        rw [hsame, hpassed]
        exact h _ (List.mem_of_getElem? hf₀)

theorem isolated_of_step (h : ∀ f ∈ s.frames, f.Own) (hs : layerStep reg s m = some t) :
    (∀ v ∈ t.invoked, v.Isolated) ↔ (∀ v ∈ s.invoked, v.Isolated) ∧ ownBackend s m = true := by
  rcases invoked_of_step hs with ⟨hsame, hm⟩ | ⟨i, f, rfl, hf, -, hinv⟩
  · have hok : ownBackend s m = true := by
      cases m with
      | invoke i => exact absurd rfl (hm i)
      | _ => rfl
    rw [hsame]
    simp [hok]
  · rw [hinv, ← isolated_iff hf (h f (List.mem_of_getElem? hf))]
    simp [or_imp, forall_and]

end Isolation

/-- **Backend isolation**: for every interleaving of executions, all invocations of `file_op` and
`fetch_output` act on the backend of their own run only, and fail when it has none, if and only if each
of them finds a backend in its context, or a tool object that holds none or that of its run. -/
theorem backends_stay_with_their_run [Py] [DecidableEq B] {reg : ToolRegistry}
    {moves : List (LayerMove B W)} {s : ToolLayer B} (h : run (layerStep reg) moves {} = some s) :
    (∀ v ∈ s.invoked, v.Isolated) ↔ meets (layerStep reg) ownBackend moves {} = true := by
  have hframes : ∀ f ∈ ({} : ToolLayer B).frames, f.Own := by
    intro f hf
    cases hf
  have hinvoked : ∀ v ∈ ({} : ToolLayer B).invoked, v.Isolated := by
    intro v hv
    cases hv
  have hiff := iff_meets (P := fun s => ∀ v ∈ s.invoked, v.Isolated)
    (fun s t m hi hs => own_of_step hi hs) (fun s t m hi hs => isolated_of_step hi hs) hframes h
  rw [hiff]
  exact and_iff_right hinvoked

/-! A registry with `file_op` and a Skill "notes" that is wired to the executor; the workspaces
restrict no paths. -/

def notesTools : ToolRegistry :=
  [.fileOp, .skill { name := "notes", inputSchema := [], outputSchema := [], sideEffects := [.external] }
    { toolFns := ["file_op"], toolDefs := some ["file_op"] }]

attribute [local instance] asciiPy

/-- The runner, with the scope guardrail of an execution. -/
def notesGuards (scope : GuardrailCheck Unit) : GuardrailRunner Unit :=
  { schemaError := fun _ _ => none
    dependencyCheck := fun _ _ _ => ⟨true, "dependency", "", false⟩
    registry := fun name =>
      if name = "destructive" then some destructiveCheck else if name = "scope" then some scope else none }

/-- With a backend the scope guardrail resolves the paths; without one it only compares them. -/
def passOn (i : ℕ) : LayerMove ℕ Unit :=
  .pass i (notesGuards (scopeCheck (fun path => .ok path) fun _ _ _ => none)) [] ()

def passOff (i : ℕ) : LayerMove ℕ Unit :=
  .pass i (notesGuards fun td input config _ _ => .ok (scopeRules (fun _ _ _ => none) td input config)) [] ()

def noteCall : Obj := FileCall.input { operation := .write, path := "note.txt", content := some "x" }

/-- The tool, the backend of the run and the backend that was acted on. -/
def Invocation.summary (v : Invocation ℕ) : String × Option ℕ × Option ℕ :=
  (v.name, v.passed, v.act.bind ToolAct.backend?)

/-- The run "r1" writes a file on backend 1. -/
def firstRun : List (LayerMove ℕ Unit) :=
  [.execute "r1" "file_op" noteCall none (some 1), passOn 0, .invoke 0, .leave 0]

/-- Then "r2", with backend 2, executes the Skill "notes", which writes a file. -/
def noteBySkill : List (LayerMove ℕ Unit) := firstRun ++
  [.execute "r2" "notes" [] none (some 2), passOn 0, .invoke 0, .call 0 "file_op" noteCall, passOff 1,
    .invoke 1]

/-- Or "r2" executes `file_op` itself. -/
def noteByStep : List (LayerMove ℕ Unit) := firstRun ++
  [.execute "r2" "file_op" noteCall none (some 2), passOn 0, .invoke 0]

/-- The file of the Skill is written on backend 1. -/
theorem nested_call_writes_elsewhere : ∃ s, run (layerStep notesTools) noteBySkill {} = some s ∧
    s.invoked.map Invocation.summary =
      [("file_op", some 1, some 1), ("notes", some 2, none), ("file_op", some 2, some 1)] ∧
    ∃ v ∈ s.invoked, ¬ v.Isolated := by
  have hrun : (run (layerStep notesTools) noteBySkill {}).any (fun s =>
      s.invoked.map Invocation.summary =
        [("file_op", some 1, some 1), ("notes", some 2, none), ("file_op", some 2, some 1)]) = true := by
    decide
  obtain ⟨s, hs, hp⟩ := Option.any_eq_true _ _ |>.mp hrun
  have hp := of_decide_eq_true hp
  refine ⟨s, hs, hp, ?_⟩
  have hmem : ("file_op", some 2, some 1) ∈ s.invoked.map Invocation.summary := by
    rw [hp]
    decide
  obtain ⟨v, hv, hsum⟩ := List.mem_map.mp hmem
  refine ⟨v, hv, ?_⟩
  intro hiso
  simp only [Invocation.summary, Prod.mk.injEq] at hsum
  obtain ⟨-, hpassed, hact⟩ := hsum
  obtain ⟨a, ha, hb⟩ := Option.bind_eq_some_iff.mp hact
  have hown := (hiso a ha).1 1 hb
  rw [hpassed] at hown
  cases hown

/-- The file of the step is written on backend 2. -/
theorem each_run_writes_its_own : ∃ s, run (layerStep notesTools) noteByStep {} = some s ∧
    s.invoked.map Invocation.summary = [("file_op", some 1, some 1), ("file_op", some 2, some 2)] ∧
    ∀ v ∈ s.invoked, v.Isolated := by
  have hrun : (run (layerStep notesTools) noteByStep {}).any (fun s =>
      s.invoked.map Invocation.summary = [("file_op", some 1, some 1), ("file_op", some 2, some 2)]) =
      true := by
    decide
  obtain ⟨s, hs, hp⟩ := Option.any_eq_true _ _ |>.mp hrun
  exact ⟨s, hs, of_decide_eq_true hp, (backends_stay_with_their_run hs).mpr (by decide)⟩

/-! ### The whitelist -/

/-- The workspace's list, if there is one, has the tool of the invocation. -/
def Invocation.Permitted (v : Invocation B) : Prop :=
  ∀ allowed, v.allowed = some allowed → isAllowed allowed v.name = true

/-- The body of a Skill calls only tools that the workspace's list has. -/
def callsAllowed (s : ToolLayer B) : LayerMove B W → Bool
  | .call i name _ => (s.frames[i]?).all fun f => f.allowed.all fun allowed => isAllowed allowed name
  | _ => true

/-- The tool of a frame is one the workspace allows, or the frame has yet to be checked against the
workspace's list. -/
def Frame.Screened (f : Frame B) : Prop :=
  (f.stage = .checking ∧ f.scope = f.allowed) ∨
    ∀ allowed, f.allowed = some allowed → isAllowed allowed f.tool.name = true

/-- Guardrails that pass have found the tool on the list. -/
theorem isAllowed_of_guardsPass {g : GuardrailRunner W} {td : ToolDefinition} {input : Obj} {log : Log}
    {w : W} {allowed : List String} (h : guardsPass g td input log w (some allowed) = true) :
    isAllowed allowed td.name = true := by
  by_contra hno
  have hfail : (whitelistCheck (some allowed) td).passed = false := by simp [whitelistCheck, hno]
  unfold guardsPass GuardrailRunner.run at h
  simp only [hfail, Bool.not_false, if_true] at h
  split_ifs at h with hschema
  · simp_all
  · simp_all

theorem screened_of_step [Py] (h : ∀ f ∈ s.frames, f.Screened) (hok : callsAllowed s m = true)
    (hs : layerStep reg s m = some t) : ∀ f ∈ t.frames, f.Screened := by
  intro f hf
  cases origin_of_step hs hf with
  | kept hf => exact h f hf
  | fresh hscope hctx hstage => exact .inl ⟨hstage, hscope⟩
  | @passed f₀ g log w hf₀ hstage hg =>
      rcases h f₀ hf₀ with ⟨-, hscope⟩ | hperm
      · refine .inr ?_
        intro allowed hallowed
        rw [hscope, show f₀.allowed = some allowed from hallowed] at hg
        exact isAllowed_of_guardsPass hg
      · exact .inr hperm
  | @entered f₀ hf₀ hstage =>
      rcases h f₀ hf₀ with ⟨hcheck, -⟩ | hperm
      · exact absurd hcheck hstage
      · exact .inr hperm
  | called hm hf₀ hopen =>
      obtain ⟨hname, hallowed, -, -⟩ := opened_cases hopen
      refine .inr ?_
      intro allowed hf'
      rw [hallowed] at hf'
      simp only [hm, callsAllowed, hf₀, hf', Option.all_some] at hok
      rw [hname]
      exact hok

theorem permitted_of_step [Py] (h : ∀ f ∈ s.frames, f.Screened) (hv : ∀ v ∈ s.invoked, v.Permitted)
    (hs : layerStep reg s m = some t) : ∀ v ∈ t.invoked, v.Permitted := by
  rcases invoked_of_step hs with ⟨hsame, -⟩ | ⟨i, f, rfl, hf, hstage, hinv⟩
  · rw [hsame]
    exact hv
  · intro v hmem
    rw [hinv] at hmem
    rcases List.mem_append.mp hmem with hmem | hmem
    · exact hv v hmem
    · rw [List.mem_singleton.mp hmem]
      rcases h f (List.mem_of_getElem? hf) with ⟨hcheck, -⟩ | hperm
      · exact absurd hcheck hstage
      · exact hperm

/-- **The whitelist**: in every interleaving of executions in which Skills call only tools the
workspace of their run allows, every tool function that is invoked is one that it allows. -/
theorem whitelist_holds [Py] {reg : ToolRegistry} {s : ToolLayer B}
    (h : ReachesVia (layerStep (W := W) reg) (fun s m => callsAllowed s m = true) {} s) :
    ∀ v ∈ s.invoked, v.Permitted := by
  have hinv := h.invariant (I := fun s => (∀ f ∈ s.frames, f.Screened) ∧ ∀ v ∈ s.invoked, v.Permitted)
    (by
      constructor
      · intro f hf
        cases hf
      · intro v hv
        cases hv)
    (by
      intro s t m _ hok hi hs
      exact ⟨screened_of_step hi.1 hok hs, permitted_of_step hi.1 hi.2 hs⟩)
  exact hinv.2

/-- The Skill "notes" is executed in a workspace and writes a file. -/
def noteByNotes (allowed : List String) : List (LayerMove ℕ Unit) :=
  [.execute "r1" "notes" [] (some allowed) (some 1), passOn 0, .invoke 0, .call 0 "file_op" noteCall,
    passOff 1, .invoke 1]

/-- The workspace allows "notes" only, and `file_op` is invoked. -/
theorem skill_calls_refused_tool : ∃ s : ToolLayer ℕ, Reaches (layerStep (W := Unit) notesTools) {} s ∧
    s.invoked.map (fun v => (v.name, v.allowed)) =
      [("notes", some ["notes"]), ("file_op", some ["notes"])] ∧ ∃ v ∈ s.invoked, ¬ v.Permitted := by
  obtain ⟨s, hs, hp⟩ := exists_reaches_of_run (layerStep notesTools) (noteByNotes ["notes"]) {}
    (fun s => s.invoked.map (fun v => (v.name, v.allowed)) =
      [("notes", some ["notes"]), ("file_op", some ["notes"])]) (by decide)
  have hp := of_decide_eq_true hp
  refine ⟨s, hs, hp, ?_⟩
  have hmem : ("file_op", some ["notes"]) ∈ s.invoked.map (fun v => (v.name, v.allowed)) := by
    rw [hp]
    decide
  obtain ⟨v, hv, heq⟩ := List.mem_map.mp hmem
  refine ⟨v, hv, ?_⟩
  intro hperm
  simp only [Prod.mk.injEq] at heq
  have hallowed := hperm ["notes"] heq.2
  rw [heq.1] at hallowed
  exact absurd hallowed (by decide)

/-- The workspace allows both tools. -/
theorem allowed_call_is_permitted : ∃ s : ToolLayer ℕ, ReachesVia (layerStep (W := Unit) notesTools)
      (fun s m => callsAllowed s m = true) {} s ∧
    s.invoked.map (fun v => v.name) = ["notes", "file_op"] ∧ ∀ v ∈ s.invoked, v.Permitted := by
  obtain ⟨s, hs, hp⟩ := exists_reachesVia_of_run (layerStep notesTools) callsAllowed
    (noteByNotes ["notes", "file_*"]) {} (fun s => s.invoked.map (fun v => v.name) = ["notes", "file_op"])
    (by decide)
  exact ⟨s, hs, of_decide_eq_true hp, whitelist_holds hs⟩

end JAgent
