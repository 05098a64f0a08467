import JAgent.Core.WorkingView

/-! # The difference between two moments of a run

The replay inspector shows what changed in a run after one event and up to another.  `diff_states` folds the
stream up to either and compares the two snapshots: a tool result is new when its id is not the id of a
result the first snapshot has.

The results of the window that it lists are those that are still in the view at its end and whose id is not
in the view at its beginning (`added_eq`).  So `diff_complete_iff`: the list has every result of the window,
and windows that meet add up, exactly when nothing in the window is archived or pruned within it and each id
is new. -/

namespace JAgent

/-! ### Snapshots -/

/-- The events up to a sequence number. -/
def upTo (n : ℕ) (events : List LogEvent) : List LogEvent := events.filter fun e => e.seq ≤ n

/-- The events of the window. -/
def between (a c : ℕ) (events : List LogEvent) : List LogEvent :=
  events.filter fun e => a < e.seq && e.seq ≤ c

/-- `reconstruct_state`. -/
def reconstructState [Py] (events : List LogEvent) (atSeq : Option ℕ) : Except String RunState :=
  match events, atSeq with
  | [], _ => .error "Cannot reconstruct state from an empty event list"
  | _, none => foldEvents events
  | e :: _, some n =>
      if n < e.seq then
        .error ("at_seq=" ++ toString n ++ " is before the first event (seq=" ++ toString e.seq ++
          "); no state exists yet")
      else foldEvents (upTo n events)

/-! ### The views -/

structure StatusChangeView where
  fromStatus : String
  toStatus : String
deriving DecidableEq

structure StepChangeView where
  stepId : String
  fromStatus : Option String
  toStatus : Option String
  error : Option String
deriving DecidableEq

structure ToolResultChangeView where
  toolCallId : String
  toolName : String
  status : String
  eventSeq : ℕ
  error : Option String
deriving DecidableEq

structure GuardrailBlockView where
  guardrailId : String
  reason : String
  eventSeq : ℕ
  toolCallId : Option String
  toolName : Option String
  stepId : Option String
deriving DecidableEq

structure ErrorChangeView where
  fromError : Option String
  toError : Option String
deriving DecidableEq

structure StateDiff where
  runId : String
  fromSeq : ℕ
  toSeq : ℕ
  statusChange : Option StatusChangeView
  stepsChanged : List StepChangeView
  toolResultsAdded : List ToolResultChangeView
  guardrailsTriggered : List GuardrailBlockView
  errorChange : Option ErrorChangeView

/-- `d[k] = v` in a dict whose keys are values of a payload; keys are compared as `==` does. -/
def putKey (d : List (Value × Value)) (k v : Value) : Except String (List (Value × Value)) :=
  match k with
  | .arr _ => .error "unhashable type: 'list'"
  | .obj _ => .error "unhashable type: 'dict'"
  | _ => .ok
      (if d.any (·.1.pyEq k) then d.map fun p => if p.1.pyEq k then (p.1, v) else p else d ++ [(k, v)])

/-- `d.get(k)`. -/
def getKey (d : List (Value × Value)) (k : Value) : Value := ((d.find? (·.1.pyEq k)).map Prod.snd).getD .null

/-- A field of the steps of the latest plan, by step id. -/
def planStepMap (field : String) (default : Value) (st : RunState) : Except String (List (Value × Value)) :=
  match st.latestPlan with
  | none => .ok []
  | some entry => entry.steps.foldlM (fun d s =>
      putKey d ((Obj.get? s "step_id").getD (.str "")) ((Obj.get? s field).getD default)) []

/-- `_step_status_map` and `_step_error_map`. -/
def stepStatusMap : RunState → Except String (List (Value × Value)) := planStepMap "status" (.str "pending")

def stepErrorMap : RunState → Except String (List (Value × Value)) := planStepMap "error" .null

/-- A field of a view that is a text or absent. -/
def optionalText : Value → Except String (Option String)
  | .null => .ok none
  | .str s => .ok (some s)
  | _ => .error "StepChangeView"

/-- The view of one step. -/
def stepChangeView (stepId fromStatus toStatus error : Value) : Except String StepChangeView := do
  match stepId with
  | .str sid => .ok ⟨sid, ← optionalText fromStatus, ← optionalText toStatus, ← optionalText error⟩
  | _ => .error "StepChangeView"

/-- The steps whose status is not what it was. -/
def stepsChanged (before after : RunState) : Except String (List StepChangeView) := do
  let beforeSteps ← stepStatusMap before
  let afterSteps ← stepStatusMap after
  let afterErrors ← stepErrorMap after
  (afterSteps.filter fun p => !(getKey beforeSteps p.1).pyEq p.2).mapM fun p =>
    stepChangeView p.1 (getKey beforeSteps p.1) p.2
      (if p.2.pyEq (.str "failed") then getKey afterErrors p.1 else .null)

def ToolResult.changeView (tr : ToolResult) : ToolResultChangeView :=
  ⟨tr.toolCallId, tr.toolName, tr.status.value, tr.eventSeq, tr.error⟩

/-- `tool_results_added`. -/
def toolResultsAdded (before after : RunState) : List ToolResultChangeView :=
  let beforeResultIds := before.toolResults.map (·.toolCallId)
  (after.toolResults.filter fun tr => !beforeResultIds.contains tr.toolCallId).map ToolResult.changeView

/-- `_guardrail_blocks`. -/
def guardrailBlocks (events : List LogEvent) : List GuardrailBlockView :=
  events.filterMap fun e => match e.payload with
    | .guardrailTriggered toolCallId toolName guardrailId reason stepId _ =>
        some ⟨guardrailId, reason, e.seq, some toolCallId, some toolName, stepId⟩
    | _ => none

section diff
variable [Py]

/-- `diff_states`. -/
def diffStates (events : List LogEvent) (fromSeq toSeq : ℕ) : Except String StateDiff := do
  if fromSeq > toSeq then
    throw ("from_seq (" ++ toString fromSeq ++ ") must be <= to_seq (" ++ toString toSeq ++ ")")
  let before ← reconstructState events (some fromSeq)
  let after ← reconstructState events (some toSeq)
  let steps ← stepsChanged before after
  return {
    runId := after.runId
    fromSeq := fromSeq
    toSeq := toSeq
    statusChange :=
      if before.status ≠ after.status then some ⟨before.status.value, after.status.value⟩ else none
    stepsChanged := steps
    toolResultsAdded := toolResultsAdded before after
    guardrailsTriggered := guardrailBlocks (between fromSeq toSeq events)
    errorChange :=
      if before.lastError ≠ after.lastError then some ⟨before.lastError, after.lastError⟩ else none }

/-- **What the difference is made of.** -/
theorem diffStates_eq_ok {events : List LogEvent} {a c : ℕ} (hac : a ≤ c) {added : List ToolResultChangeView} :
    (∃ d, diffStates events a c = .ok d ∧ d.toolResultsAdded = added) ↔
      ∃ before after, reconstructState events (some a) = .ok before ∧
        reconstructState events (some c) = .ok after ∧ (∃ l, stepsChanged before after = .ok l) ∧
          toolResultsAdded before after = added := by
  rw [diffStates, if_neg (Nat.not_lt.mpr hac)]
  constructor
  · rintro ⟨d, hd, hadded⟩
    cases hbefore : reconstructState events (some a) with
    | error err =>
        rw [hbefore] at hd
        cases hd
    | ok before =>
        cases hafter : reconstructState events (some c) with
        | error err =>
            rw [hbefore, hafter] at hd
            cases hd
        | ok after =>
            cases hsteps : stepsChanged before after with
            | error err =>
                rw [hbefore, hafter] at hd
                simp only [bind, Except.bind, hsteps] at hd
                cases hd
            | ok l =>
                rw [hbefore, hafter] at hd
                simp only [bind, Except.bind, pure, Except.pure, hsteps] at hd
                cases hd
                exact ⟨before, after, rfl, rfl, ⟨l, hsteps⟩, hadded⟩
  · rintro ⟨before, after, hbefore, hafter, ⟨l, hsteps⟩, hadded⟩
    rw [hbefore, hafter]
    simp only [bind, Except.bind, pure, Except.pure, hsteps]
    exact ⟨_, rfl, hadded⟩

/-! ### Windows -/

section windows
variable {es : List LogEvent} {a b c : ℕ}

omit [Py] in
theorem mem_upTo {e : LogEvent} {n : ℕ} : e ∈ upTo n es ↔ e ∈ es ∧ e.seq ≤ n := by
  rw [upTo, List.mem_filter, decide_eq_true_eq]

omit [Py] in
theorem mem_between {e : LogEvent} : e ∈ between a c es ↔ e ∈ es ∧ a < e.seq ∧ e.seq ≤ c := by
  rw [between, List.mem_filter, Bool.and_eq_true, decide_eq_true_eq, decide_eq_true_eq]

omit [Py] in
/-- A stream is what is up to a number and what is behind it. -/
theorem eq_upTo_append (hes : InSequence es) (n : ℕ) : es = upTo n es ++ es.filter fun e => n < e.seq := by
  induction es with
  | nil => rfl
  | cons e es ih =>
      obtain ⟨hhead, htail⟩ := List.pairwise_cons.mp hes
      by_cases hen : e.seq ≤ n
      · have hup : upTo n (e :: es) = e :: upTo n es := List.filter_cons_of_pos (decide_eq_true hen)
        have hbehind : (e :: es).filter (fun e => n < e.seq) = es.filter fun e => n < e.seq :=
          List.filter_cons_of_neg (by rw [decide_eq_true_eq]; exact Nat.not_lt.mpr hen)
        rw [hup, hbehind, List.cons_append, ← ih htail]
      · have hlater : ∀ x ∈ e :: es, n < x.seq := by
          intro x hx
          obtain rfl | hx := List.mem_cons.mp hx
          · exact Nat.lt_of_not_le hen
          · exact (Nat.lt_of_not_le hen).trans (hhead x hx)
        have hup : upTo n (e :: es) = [] := by
          rw [upTo, List.filter_eq_nil_iff]
          intro x hx hxn
          exact Nat.not_lt.mpr (of_decide_eq_true hxn) (hlater x hx)
        rw [hup, List.nil_append, List.filter_eq_self.mpr fun x hx => decide_eq_true (hlater x hx)]

omit [Py] in
theorem upTo_eq_append (hes : InSequence es) (hac : a ≤ c) : upTo c es = upTo a es ++ between a c es := by
  have hsplit := congrArg (upTo c) (eq_upTo_append hes a)
  rw [hsplit, upTo, upTo, List.filter_append, List.filter_filter, List.filter_filter]
  congr 1
  · apply List.filter_congr
    intro e _
    rw [Bool.eq_iff_iff, Bool.and_eq_true, decide_eq_true_eq, decide_eq_true_eq]
    omega
  · apply List.filter_congr
    intro e _
    rw [Bool.and_comm]

omit [Py] in
theorem between_append (hes : InSequence es) (hab : a ≤ b) (hbc : b ≤ c) :
    between a c es = between a b es ++ between b c es := by
  have hsplit := congrArg (between a c) (eq_upTo_append hes b)
  rw [hsplit, between, upTo, List.filter_append, List.filter_filter, List.filter_filter]
  congr 1
  all_goals
    apply List.filter_congr
    intro e _
    rw [Bool.eq_iff_iff]
    simp only [Bool.and_eq_true, decide_eq_true_eq]
    omega

omit [Py] in
theorem InSequence.upTo (hes : InSequence es) (n : ℕ) : InSequence (upTo n es) := hes.filter _

omit [Py] in
theorem InSequence.between (hes : InSequence es) : InSequence (between a c es) := hes.filter _

/-- The results of a window. -/
def windowAdds (a c : ℕ) (es : List LogEvent) : List ToolResult := resultView.added (between a c es)

omit [Py] in
theorem mem_windowAdds {r : ToolResult} :
    r ∈ windowAdds a c es ↔ r ∈ resultView.added es ∧ a < r.eventSeq ∧ r.eventSeq ≤ c := by
  constructor
  · intro hr
    obtain ⟨e, he, hadds, hkey⟩ := Lib.Retention.exists_stamp_of_mem hr
    obtain ⟨hmem, hlt, hle⟩ := mem_between.mp he
    have hseq : r.eventSeq = e.seq := hkey
    rw [hseq]
    exact ⟨List.mem_filterMap.mpr ⟨e, hmem, hadds⟩, hlt, hle⟩
  · rintro ⟨hr, hlt, hle⟩
    obtain ⟨e, he, hadds, hkey⟩ := Lib.Retention.exists_stamp_of_mem hr
    have hseq : r.eventSeq = e.seq := hkey
    rw [hseq] at hlt hle
    exact List.mem_filterMap.mpr ⟨e, mem_between.mpr ⟨he, hlt, hle⟩, hadds⟩

omit [Py] in
theorem windowAdds_append (hes : InSequence es) (hab : a ≤ b) (hbc : b ≤ c) :
    windowAdds a c es = windowAdds a b es ++ windowAdds b c es := by
  rw [windowAdds, between_append hes hab hbc, Lib.Retention.added_append]
  rfl

/-- A result is still in the view at the end of the window. -/
def shownAt (c : ℕ) (es : List LogEvent) (r : ToolResult) : Bool := resultView.survives (upTo c es) r

omit [Py] in
theorem shownAt_mono {r : ToolResult} (hbc : b ≤ c) (h : shownAt c es r = true) : shownAt b es r = true := by
  rw [shownAt, Lib.Retention.survives_iff] at h ⊢
  intro e he
  obtain ⟨he, heb⟩ := mem_upTo.mp he
  exact h e (mem_upTo.mpr ⟨he, heb.trans hbc⟩)

/-- The results of a snapshot. -/
theorem toolResults_upTo (hes : InSequence es) {n : ℕ} {st : RunState} (h : foldEvents (upTo n es) = .ok st) :
    st.toolResults = (resultView.added (upTo n es)).filter (shownAt n es) := by
  have hasc : resultView.Ascending (upTo n es) := hes.upTo n
  rw [(view_foldEvents h).1, Lib.Retention.foldl_retain hasc fun r hr => absurd hr List.not_mem_nil,
    List.nil_append]
  rfl

theorem mem_toolResults_upTo (hes : InSequence es) {n : ℕ} {st : RunState} {r : ToolResult}
    (h : foldEvents (upTo n es) = .ok st) :
    r ∈ st.toolResults ↔ r ∈ resultView.added es ∧ r.eventSeq ≤ n ∧ shownAt n es r = true := by
  rw [toolResults_upTo hes h, List.mem_filter, ← and_assoc]
  apply and_congr_left'
  constructor
  · intro hr
    obtain ⟨e, he, hadds, hkey⟩ := Lib.Retention.exists_stamp_of_mem hr
    obtain ⟨hmem, hle⟩ := mem_upTo.mp he
    have hseq : r.eventSeq = e.seq := hkey
    rw [hseq]
    exact ⟨List.mem_filterMap.mpr ⟨e, hmem, hadds⟩, hle⟩
  · rintro ⟨hr, hle⟩
    obtain ⟨e, he, hadds, hkey⟩ := Lib.Retention.exists_stamp_of_mem hr
    have hseq : r.eventSeq = e.seq := hkey
    rw [hseq] at hle
    exact List.mem_filterMap.mpr ⟨e, mem_upTo.mpr ⟨he, hle⟩, hadds⟩

/-- The result is listed. -/
def listed (before : RunState) (c : ℕ) (es : List LogEvent) (r : ToolResult) : Bool :=
  shownAt c es r && !(before.toolResults.map (·.toolCallId)).contains r.toolCallId

/-- **What is listed**: the results of the window that stay to its end and whose id is new. -/
theorem added_eq (hes : InSequence es) (hac : a ≤ c) {before after : RunState}
    (hbefore : foldEvents (upTo a es) = .ok before) (hafter : foldEvents (upTo c es) = .ok after) :
    toolResultsAdded before after =
      ((windowAdds a c es).filter (listed before c es)).map ToolResult.changeView := by
  have hold : ((resultView.added (upTo a es)).filter (listed before c es)) = [] := by
    rw [List.filter_eq_nil_iff]
    intro r hr hlisted
    rw [listed, Bool.and_eq_true] at hlisted
    have hmem : r ∈ before.toolResults := by
      rw [toolResults_upTo hes hbefore]
      exact List.mem_filter.mpr ⟨hr, shownAt_mono hac hlisted.1⟩
    have hid : (before.toolResults.map (·.toolCallId)).contains r.toolCallId = true :=
      List.contains_iff_mem.mpr (List.mem_map_of_mem hmem)
    rw [hid] at hlisted
    cases hlisted.2
  rw [toolResultsAdded, toolResults_upTo hes hafter, List.filter_filter, upTo_eq_append hes hac,
    Lib.Retention.added_append, List.filter_append]
  have hcomm : (fun r : ToolResult => !(before.toolResults.map (·.toolCallId)).contains r.toolCallId &&
      shownAt c es r) = listed before c es := by
    funext r
    rw [listed, Bool.and_comm]
  rw [hcomm, hold, List.nil_append]
  rfl

/-! ### Complete differences -/

omit [Py] in
/-- All results of the window are listed. -/
theorem filter_listed_iff {before : RunState} :
    ((windowAdds a c es).filter (listed before c es)).map ToolResult.changeView =
        (windowAdds a c es).map ToolResult.changeView ↔
      ∀ r ∈ windowAdds a c es, listed before c es r = true := by
  constructor
  · intro h
    have hlength := congrArg List.length h
    rw [List.length_map, List.length_map] at hlength
    exact List.length_filter_eq_length_iff.mp hlength
  · intro h
    rw [List.filter_eq_self.mpr h]

omit [Py] in
theorem listed_iff {before : RunState} {r : ToolResult} : listed before c es r = true ↔
    shownAt c es r = true ∧ ∀ r' ∈ before.toolResults, r'.toolCallId ≠ r.toolCallId := by
  rw [listed, Bool.and_eq_true, Bool.not_eq_true', ← Bool.not_eq_true, List.contains_iff_mem, List.mem_map]
  apply and_congr_right'
  constructor
  · intro h r' hr' hid
    exact h ⟨r', hr', hid⟩
  · rintro h ⟨r', hr', hid⟩
    exact h r' hr' hid

/-- The diff lists these results. -/
def DiffLists (es : List LogEvent) (a c : ℕ) (results : List ToolResultChangeView) : Prop :=
  ∃ d, diffStates es a c = .ok d ∧ d.toolResultsAdded = results

/-- **The diff of the window is complete**: it lists the results of the window, one by one, and wherever the
window is cut in two, the lists of the parts make up the list of the whole. -/
structure DiffComplete (es : List LogEvent) (a c : ℕ) : Prop where
  window : DiffLists es a c ((windowAdds a c es).map ToolResult.changeView)
  parts : ∀ b, a ≤ b → b ≤ c → ∃ l l₁ l₂, DiffLists es a c l ∧ DiffLists es a b l₁ ∧ DiffLists es b c l₂ ∧
    l = l₁ ++ l₂

/-- The steps that changed between two moments can be shown: the ids, states and errors are texts. -/
def StepsReadable (es : List LogEvent) (a c : ℕ) : Prop :=
  ∀ before after, foldEvents (upTo a es) = .ok before → foldEvents (upTo c es) = .ok after →
    ∃ l, stepsChanged before after = .ok l

/-- What a complete diff needs: the snapshots can be folded and their steps be shown; no result of the window
leaves the view within it; its ids are new, and none is there twice. -/
structure WindowFaithful (es : List LogEvent) (a c : ℕ) : Prop where
  folds : ∃ st, foldEvents (upTo c es) = .ok st
  steps : ∀ b, a ≤ b → b ≤ c → StepsReadable es a b ∧ StepsReadable es b c
  kept : ∀ r ∈ windowAdds a c es, ∀ e ∈ es, r.eventSeq < e.seq → e.seq ≤ c → r.eventSeq ∉ e.payload.trims
  fresh : ∀ before, foldEvents (upTo a es) = .ok before → ∀ r ∈ windowAdds a c es,
    ∀ r' ∈ before.toolResults, r'.toolCallId ≠ r.toolCallId
  distinct : (windowAdds a c es).Pairwise fun r r' => r.toolCallId ≠ r'.toolCallId

omit [Py] in
theorem shownAt_iff {r : ToolResult} : shownAt c es r = true ↔
    ∀ e ∈ es, r.eventSeq < e.seq → e.seq ≤ c → r.eventSeq ∉ e.payload.trims := by
  rw [shownAt, Lib.Retention.survives_iff]
  constructor
  · intro h e he hlt hle
    exact h e (mem_upTo.mpr ⟨he, hle⟩) hlt
  · intro h e he hlt
    obtain ⟨he, hle⟩ := mem_upTo.mp he
    exact h e he hlt hle

/-- From its first event on a stream is folded. -/
theorem reconstructState_eq {n : ℕ} (hfirst : ∃ e ∈ es.head?, e.seq ≤ n) :
    reconstructState es (some n) = foldEvents (upTo n es) := by
  obtain ⟨e, he, hle⟩ := hfirst
  cases es with
  | nil => cases he
  | cons e' es =>
      obtain rfl := Option.some.inj he
      rw [reconstructState, if_neg (Nat.not_lt.mpr hle)]

/-- Whatever comes before a moment that can be folded can be folded. -/
theorem exists_fold_upTo (hes : InSequence es) (hfirst : ∃ e ∈ es.head?, e.seq ≤ a) (hac : a ≤ c)
    (h : ∃ st, foldEvents (upTo c es) = .ok st) : ∃ st, foldEvents (upTo a es) = .ok st := by
  obtain ⟨e, he, hle⟩ := hfirst
  obtain ⟨st, hst⟩ := h
  cases es with
  | nil => cases he
  | cons e' es =>
      obtain rfl := Option.some.inj he
      have hup : upTo a (e' :: es) = e' :: upTo a es := List.filter_cons_of_pos (decide_eq_true hle)
      rw [upTo_eq_append hes hac, hup] at hst
      rw [hup]
      exact foldEvents_append hst

/-- **The list of a window.** -/
theorem diffLists_iff (hes : InSequence es) (hfirst : ∃ e ∈ es.head?, e.seq ≤ a) (hac : a ≤ c)
    {results : List ToolResultChangeView} : DiffLists es a c results ↔
      ∃ before, foldEvents (upTo a es) = .ok before ∧ (∃ after, foldEvents (upTo c es) = .ok after) ∧
        StepsReadable es a c ∧
          ((windowAdds a c es).filter (listed before c es)).map ToolResult.changeView = results := by
  have hfirst' : ∃ e ∈ es.head?, e.seq ≤ c := by
    obtain ⟨e, he, hle⟩ := hfirst
    exact ⟨e, he, hle.trans hac⟩
  rw [DiffLists, diffStates_eq_ok hac, reconstructState_eq hfirst, reconstructState_eq hfirst']
  constructor
  · rintro ⟨before, after, hbefore, hafter, hsteps, hadded⟩
    refine ⟨before, hbefore, ⟨after, hafter⟩, ?_, ?_⟩
    · intro before' after' hbefore' hafter'
      rw [hbefore] at hbefore'
      rw [hafter] at hafter'
      rw [← Except.ok.inj hbefore', ← Except.ok.inj hafter']
      exact hsteps
    · rw [← added_eq hes hac hbefore hafter]
      exact hadded
  · rintro ⟨before, hbefore, ⟨after, hafter⟩, hsteps, hadded⟩
    refine ⟨before, after, hbefore, hafter, hsteps before after hbefore hafter, ?_⟩
    rw [added_eq hes hac hbefore hafter]
    exact hadded

/-- A window whose results are kept and new is listed as it is. -/
theorem diffLists_window (hes : InSequence es) (hfirst : ∃ e ∈ es.head?, e.seq ≤ a) (hac : a ≤ c)
    (hfolds : ∃ st, foldEvents (upTo c es) = .ok st) (hsteps : StepsReadable es a c)
    (hlisted : ∀ before, foldEvents (upTo a es) = .ok before → ∀ r ∈ windowAdds a c es,
      listed before c es r = true) : DiffLists es a c ((windowAdds a c es).map ToolResult.changeView) := by
  obtain ⟨before, hbefore⟩ := exists_fold_upTo hes hfirst hac hfolds
  exact (diffLists_iff hes hfirst hac).mpr
    ⟨before, hbefore, hfolds, hsteps, filter_listed_iff.mpr (hlisted before hbefore)⟩

theorem WindowFaithful.window (h : WindowFaithful es a c) (hes : InSequence es)
    (hfirst : ∃ e ∈ es.head?, e.seq ≤ a) (hac : a ≤ c) :
    DiffLists es a c ((windowAdds a c es).map ToolResult.changeView) :=
  diffLists_window hes hfirst hac h.folds (h.steps c hac le_rfl).1 fun before hbefore r hr =>
    listed_iff.mpr ⟨shownAt_iff.mpr (h.kept r hr), h.fresh before hbefore r hr⟩

/-- A faithful window starts with faithful windows. -/
theorem WindowFaithful.before (h : WindowFaithful es a c) (hes : InSequence es)
    (hfirst : ∃ e ∈ es.head?, e.seq ≤ a) (hab : a ≤ b) (hbc : b ≤ c) :
    DiffLists es a b ((windowAdds a b es).map ToolResult.changeView) := by
  have hfirst' : ∃ e ∈ es.head?, e.seq ≤ b := by
    obtain ⟨e, he, hle⟩ := hfirst
    exact ⟨e, he, hle.trans hab⟩
  apply diffLists_window hes hfirst hab (exists_fold_upTo hes hfirst' hbc h.folds) (h.steps b hab hbc).1
  intro before hbefore r hr
  obtain ⟨hadded, hfrom, hto⟩ := mem_windowAdds.mp hr
  have hr' : r ∈ windowAdds a c es := mem_windowAdds.mpr ⟨hadded, hfrom, hto.trans hbc⟩
  have hshown : shownAt c es r = true := shownAt_iff.mpr (h.kept r hr')
  exact listed_iff.mpr ⟨shownAt_mono hbc hshown, h.fresh before hbefore r hr'⟩

/-- And ends with them: a result that the first part shows was there before or is of the window. -/
theorem WindowFaithful.after (h : WindowFaithful es a c) (hes : InSequence es)
    (hfirst : ∃ e ∈ es.head?, e.seq ≤ a) (hab : a ≤ b) (hbc : b ≤ c) :
    DiffLists es b c ((windowAdds b c es).map ToolResult.changeView) := by
  have hfirst' : ∃ e ∈ es.head?, e.seq ≤ b := by
    obtain ⟨e, he, hle⟩ := hfirst
    exact ⟨e, he, hle.trans hab⟩
  obtain ⟨before, hbefore⟩ := exists_fold_upTo hes hfirst (hab.trans hbc) h.folds
  apply diffLists_window hes hfirst' hbc h.folds (h.steps b hab hbc).2
  intro mid hmid r hr
  obtain ⟨hadded, hfrom, hto⟩ := mem_windowAdds.mp hr
  have hr' : r ∈ windowAdds a c es := mem_windowAdds.mpr ⟨hadded, hab.trans_lt hfrom, hto⟩
  refine listed_iff.mpr ⟨shownAt_iff.mpr (h.kept r hr'), fun x hx => ?_⟩
  obtain ⟨hxadded, hxb, hxshown⟩ := (mem_toolResults_upTo hes hmid).mp hx
  by_cases hxa : x.eventSeq ≤ a
  · exact h.fresh before hbefore r hr' x ((mem_toolResults_upTo hes hbefore).mpr
      ⟨hxadded, hxa, shownAt_mono hab hxshown⟩)
  · have hdistinct := h.distinct
    rw [windowAdds_append hes hab hbc, List.pairwise_append] at hdistinct
    exact hdistinct.2.2 x (mem_windowAdds.mpr ⟨hxadded, Nat.lt_of_not_le hxa, hxb⟩) r hr

end windows

/-- **The diff is complete** exactly when the window is faithful. -/
theorem diff_complete_iff (events : List LogEvent) (hes : InSequence events) {fromSeq toSeq : ℕ}
    (hfirst : ∃ e ∈ events.head?, e.seq ≤ fromSeq) (hle : fromSeq ≤ toSeq) :
    DiffComplete events fromSeq toSeq ↔ WindowFaithful events fromSeq toSeq := by
  have hfirst' : ∀ b, fromSeq ≤ b → ∃ e ∈ events.head?, e.seq ≤ b := by
    obtain ⟨e, he, hle'⟩ := hfirst
    exact fun b hb => ⟨e, he, hle'.trans hb⟩
  constructor
  · rintro ⟨hwindow, hparts⟩
    obtain ⟨before, hbefore, ⟨after, hafter⟩, -, hall⟩ := (diffLists_iff hes hfirst hle).mp hwindow
    have hlisted := filter_listed_iff.mp hall
    refine ⟨⟨after, hafter⟩, fun b hb hb' => ?_, fun r hr => ?_, fun before' hbefore' r hr => ?_, ?_⟩
    · obtain ⟨l, l₁, l₂, -, h₁, h₂, -⟩ := hparts b hb hb'
      obtain ⟨-, -, -, hsteps₁, -⟩ := (diffLists_iff hes hfirst hb).mp h₁
      obtain ⟨-, -, -, hsteps₂, -⟩ := (diffLists_iff hes (hfirst' b hb) hb').mp h₂
      exact ⟨hsteps₁, hsteps₂⟩
    · exact shownAt_iff.mp (listed_iff.mp (hlisted r hr)).1
    · rw [hbefore] at hbefore'
      rw [← Except.ok.inj hbefore']
      exact (listed_iff.mp (hlisted r hr)).2
    · -- cut the window right behind the first of two results with one id
      have hkeys : (windowAdds fromSeq toSeq events).Pairwise fun r r' => r.eventSeq < r'.eventSeq :=
        Lib.Retention.keys_added (show resultView.Ascending _ from hes.between)
      refine hkeys.imp_of_mem fun {r r'} hr hr' hlt hid => ?_
      obtain ⟨hradded, hrfrom, hrto⟩ := mem_windowAdds.mp hr
      obtain ⟨hradded', hrfrom', hrto'⟩ := mem_windowAdds.mp hr'
      obtain ⟨l, l₁, l₂, h, h₁, h₂, hl⟩ := hparts r.eventSeq hrfrom.le hrto
      obtain ⟨before₀, hbefore₀, -, -, rfl⟩ := (diffLists_iff hes hfirst hle).mp h
      obtain ⟨before₁, -, -, -, rfl⟩ := (diffLists_iff hes hfirst hrfrom.le).mp h₁
      obtain ⟨before₂, hbefore₂, -, -, rfl⟩ := (diffLists_iff hes (hfirst' _ hrfrom.le) hrto).mp h₂
      rw [hbefore] at hbefore₀
      obtain rfl := Except.ok.inj hbefore₀
      rw [List.filter_eq_self.mpr hlisted, windowAdds_append hes hrfrom.le hrto] at hl
      have hlength := congrArg List.length hl
      simp only [List.length_map, List.length_append] at hlength
      have hle₁ := List.length_filter_le (listed before₁ r.eventSeq events)
        (windowAdds fromSeq r.eventSeq events)
      have hle₂ := List.length_filter_le (listed before₂ toSeq events) (windowAdds r.eventSeq toSeq events)
      have hall₂ := List.length_filter_eq_length_iff.mp
        (show ((windowAdds r.eventSeq toSeq events).filter (listed before₂ toSeq events)).length =
          (windowAdds r.eventSeq toSeq events).length by omega)
      have hlisted' := hall₂ r' (mem_windowAdds.mpr ⟨hradded', hlt, hrto'⟩)
      refine (listed_iff.mp hlisted').2 r ?_ hid
      rw [mem_toolResults_upTo hes hbefore₂]
      exact ⟨hradded, le_rfl, shownAt_mono hrto (listed_iff.mp (hlisted r hr)).1⟩
  · intro h
    have hwindow := h.window hes hfirst hle
    refine ⟨hwindow, fun b hb hb' => ⟨_, _, _, hwindow, h.before hes hfirst hb hb',
      h.after hes hfirst hb hb', ?_⟩⟩
    rw [windowAdds_append hes hb hb', List.map_append]

end diff

section sample

attribute [local instance] asciiPy

/-- A call that completes. -/
def oneResultLog : List LogEvent :=
  [⟨"run_1", 1, .runStarted { intent := "list the files" }⟩,
    ⟨"run_1", 2, .toolCompleted { toolCallId := "call_0", toolName := "list_files", output := .str "a.py" }⟩]

/-- It is in the diff from the start on. -/
theorem one_result_diffed : InSequence oneResultLog ∧ DiffComplete oneResultLog 1 2 := by
  have hes : InSequence oneResultLog := by
    rw [InSequence]
    decide
  have hfirst : ∃ e ∈ oneResultLog.head?, e.seq ≤ 1 := ⟨_, rfl, le_rfl⟩
  refine ⟨hes, (diff_complete_iff oneResultLog hes hfirst (by decide)).mpr ?_⟩
  have hsteps : ∀ a b, a = 1 ∨ a = 2 → b = 1 ∨ b = 2 → StepsReadable oneResultLog a b := by
    rintro a b (rfl | rfl) (rfl | rfl) before after hbefore hafter
    all_goals
      cases hbefore
      cases hafter
      exact ⟨[], by rfl⟩
  have hwindow : windowAdds 1 2 oneResultLog =
      [{ toolCallId := "call_0", toolName := "list_files", status := .completed, output := .str "a.py"
         eventSeq := 2 }] := by decide +kernel
  constructor
  · exact ⟨_, rfl⟩
  · intro b hb hb'
    have hb₁₂ : b = 1 ∨ b = 2 := by omega
    exact ⟨hsteps 1 b (.inl rfl) hb₁₂, hsteps b 2 hb₁₂ (.inr rfl)⟩
  · intro r hr e _ hlt hle
    rw [hwindow] at hr
    obtain rfl := List.mem_singleton.mp hr
    exact absurd (hlt.trans_le hle) (by decide)
  · intro before hbefore r _ r' hr'
    cases hbefore
    cases hr'
  · rw [hwindow]
    exact List.pairwise_singleton _ _

/-- Two calls to which the model gave one id. -/
def sameIdLog : List LogEvent :=
  oneResultLog ++
    [⟨"run_1", 3, .toolCompleted { toolCallId := "call_0", toolName := "list_files", output := .str "b.py" }⟩]

/-- **A result with the id of an older one is not in the diff**: the window has one, and nothing is listed. -/
theorem same_id_not_diffed : InSequence sameIdLog ∧ (windowAdds 2 3 sameIdLog).length = 1 ∧
    DiffLists sameIdLog 2 3 [] ∧ ¬DiffComplete sameIdLog 2 3 := by
  have hlists : DiffLists sameIdLog 2 3 [] := ⟨_, rfl, rfl⟩
  refine ⟨by rw [InSequence]; decide, by decide +kernel, hlists, fun h => ?_⟩
  obtain ⟨d, hd, hadded⟩ := h.window
  obtain ⟨d', hd', hadded'⟩ := hlists
  rw [hd] at hd'
  rw [Except.ok.inj hd', hadded'] at hadded
  exact absurd hadded (by decide +kernel)

end sample

end JAgent
